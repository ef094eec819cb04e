import Mathlib.Data.Nat.Digits.Lemmas
import TrackedSections.Failure
import TrackedSections.Proofs.Marker.Grammar
import TrackedSections.Proofs.Text.Lines

/-!
# The permission bits that a marker stands for

The argument of a permissions marker is made of digits of any script, of which the first three are left out, and
the rest is a decimal number or none (`read_eq_some_iff`). Its bits are its last four decimal digits, read in
octal: the million that is added does not reach them, and the digits in front of them are cut off. It has no
bits if the sum has a digit that is not octal, or if all of the sum is too large in octal; `mode_of_nat` says
which failure comes first. Read `permissions_stand_for_bits` for the result.
-/

namespace TrackedSections

open Text

namespace Text

/-! ## Numerals -/

/-- `Spells t ds` says that `t` is written with decimal digits, of any script, that have the values `ds`. -/
def Spells (t : Text) (ds : List Nat) : Prop := List.Forall₂ (fun c d => decimalValue? c = some d) t ds

/-- Only decimal digits spell, and they spell their values. -/
theorem spells_iff {t : Text} {ds : List Nat} :
    Spells t ds ↔ (∀ c ∈ t, isDecimal c = true) ∧ ds = t.filterMap decimalValue? := by
  induction t generalizing ds with
  | nil => simp [Spells]
  | cons c t ih =>
      rw [Spells, List.forall₂_cons_left_iff, List.forall_mem_cons, isDecimal]
      cases hc : decimalValue? c with
      | none => simp
      | some d =>
          rw [List.filterMap_cons_some hc]
          constructor
          · rintro ⟨d', ds', hd', hds', rfl⟩
            obtain ⟨hall, rfl⟩ := ih.1 hds'
            exact ⟨⟨rfl, hall⟩, by rw [Option.some.inj hd']⟩
          · rintro ⟨⟨-, hall⟩, rfl⟩
            exact ⟨d, _, rfl, ih.2 ⟨hall, rfl⟩, rfl⟩

/-- The first digit of a numeral has the highest place. -/
theorem value_of_digits_eq (base : Nat) (ds : List Nat) :
    valueOfDigits base ds = Nat.ofDigits base ds.reverse := by
  rw [Nat.ofDigits_eq_foldr, List.foldr_reverse, valueOfDigits]
  congr 1
  funext value d
  rw [Nat.cast_id, Nat.add_comm, Nat.mul_comm]

/-- What spells at least one digit is not empty. -/
theorem Spells.ne_nil_iff {t : Text} {ds : List Nat} (h : Spells t ds) : t ≠ [] ↔ ds ≠ [] := by
  rw [Spells] at h
  cases h <;> simp

/-- Without low lines, the digit values of a text are what it spells. -/
theorem unsigned_eq_some_iff {t : Text} (h : '_' ∉ t) {ds : List Nat} :
    unsigned? t = some ds ↔ ds ≠ [] ∧ Spells t ds := by
  have hpieces : pieces '_' t = [t] := by
    refine cut_at_eq_singleton fun c hc => ?_
    simpa using fun heq : c = '_' => h (heq ▸ hc)
  have hflatten : [t].flatten = t := by simp
  have hall : ([t].all fun group => !group.isEmpty && group.all isDecimal) = true ↔
      t ≠ [] ∧ ∀ c ∈ t, isDecimal c = true := by simp
  rw [unsigned?, hpieces, hflatten, Option.ite_none_right_eq_some, hall, Option.some.injEq, and_assoc,
    eq_comm (b := ds), ← spells_iff]
  exact and_congr_left fun hspells => hspells.ne_nil_iff

/-- A text of digits is an integer exactly if it spells a number that is not too long. -/
theorem read_int_of_digits {t : Text} (hdigit : ∀ c ∈ t, isDigit c = true)
    (hblank : ∀ c ∈ t, isBlank c = false) {n : Int} :
    readInt? t = some n ↔ ∃ ds, ds ≠ [] ∧ ds.length ≤ digitLimit ∧ Spells t ds ∧
      n = (Nat.ofDigits 10 ds.reverse : Nat) := by
  have hfree (c : Char) (hc : isDigit c = false) : c ∉ t := fun hmem => by
    rw [hdigit c hmem] at hc
    cases hc
  have hbare (s : Text) (hs : ∀ c ∈ s, c ∈ t) : s.dropWhile isNumeralBlank = s := by
    cases s with
    | nil => rfl
    | cons c s =>
        have hc := hblank c (hs c List.mem_cons_self)
        exact List.dropWhile_cons_of_neg (by simp [isNumeralBlank, hc])
  have htrim : dropTrailing isNumeralBlank (t.dropWhile isNumeralBlank) = t := by
    rw [hbare t fun _ => id, dropTrailing, hbare t.reverse fun _ => List.mem_reverse.1, List.reverse_reverse]
  have hsign : splitSign t = (false, t) := by
    unfold splitSign
    split
    · next rest => exact absurd List.mem_cons_self (hfree '-' (by decide))
    · next rest => exact absurd List.mem_cons_self (hfree '+' (by decide))
    · rfl
  have hunsigned (ds : List Nat) : unsigned? t = some ds ↔ ds ≠ [] ∧ Spells t ds :=
    unsigned_eq_some_iff (hfree '_' (by decide))
  rw [readInt?, htrim, hsign]
  dsimp only
  constructor
  · intro h
    cases hds : unsigned? t with
    | none => simp [hds] at h
    | some ds =>
        obtain ⟨hne, hspells⟩ := (hunsigned ds).1 hds
        obtain ⟨hlimit, rfl⟩ : ds.length ≤ digitLimit ∧ (valueOfDigits 10 ds : Int) = n := by
          simpa [hds] using h
        exact ⟨ds, hne, hlimit, hspells, by rw [value_of_digits_eq]⟩
  · rintro ⟨ds, hne, hlimit, hspells, rfl⟩
    rw [(hunsigned ds).2 ⟨hne, hspells⟩, ← value_of_digits_eq]
    simp [Nat.not_lt.2 hlimit]

/-- The decimal numeral of a positive number has its digits, the last one first. -/
theorem of_nat_eq_digits {n : Nat} (h : 0 < n) :
    ofNat n = ((Nat.digits 10 n).map Nat.digitChar).reverse := by
  induction n using Nat.strongRecOn with
  | _ n ih =>
      rw [Nat.digits_eq_cons_digits_div (by decide) h.ne', List.map_cons, List.reverse_cons]
      by_cases hsmall : n < 10
      · rw [ofNat, Nat.toDigits_of_lt_base hsmall, Nat.div_eq_of_lt hsmall, Nat.mod_eq_of_lt hsmall]
        rfl
      · rw [ofNat, Nat.toDigits_of_base_le (by decide) (by omega), ← ofNat, ih (n / 10) (by omega) (by omega)]

end Text

namespace Permissions

/-! ## Digits read in octal -/

/-- The number that has in octal the digits that `n` has in decimal. -/
def inOctal (n : Nat) : Nat := Nat.ofDigits 8 (Nat.digits 10 n)

/-- All decimal digits of a number are octal. -/
def HasOctalDigits (n : Nat) : Prop := ∀ d ∈ Nat.digits 10 n, d ≤ 7

/-- `HasOctalDigits` is decidable by looking at each digit. -/
instance (n : Nat) : Decidable (HasOctalDigits n) := List.decidableBAll (· ≤ 7) _

theorem in_octal_eq (n : Nat) : inOctal n = n % 10 + 8 * inOctal (n / 10) := by
  rcases Nat.eq_zero_or_pos n with rfl | hpositive
  · simp [inOctal]
  · rw [inOctal, Nat.digits_eq_cons_digits_div (by decide) hpositive.ne', Nat.ofDigits_cons, inOctal]

/-- The last digit of a number whose digits are octal is octal, and so are those in front of it. -/
theorem HasOctalDigits.parts {n : Nat} (h : HasOctalDigits n) : n % 10 ≤ 7 ∧ HasOctalDigits (n / 10) := by
  rcases Nat.eq_zero_or_pos n with rfl | hpositive
  · exact ⟨by decide, h⟩
  · rw [HasOctalDigits, Nat.digits_eq_cons_digits_div (by decide) hpositive.ne'] at h
    exact List.forall_mem_cons.1 h

/-- Cutting off digits in octal and in decimal comes to the same. -/
theorem HasOctalDigits.in_octal_mod {n : Nat} (h : HasOctalDigits n) (k : Nat) :
    inOctal n % 8 ^ k = inOctal (n % 10 ^ k) := by
  induction k generalizing n with
  | zero => simp [Nat.mod_one, inOctal]
  | succ k ih =>
      obtain ⟨hlast, hrest⟩ := h.parts
      have hmod : (n % 10 + 8 * inOctal (n / 10)) % 8 = n % 10 := by omega
      have hdiv : (n % 10 + 8 * inOctal (n / 10)) / 8 = inOctal (n / 10) := by omega
      calc inOctal n % 8 ^ (k + 1)
          = (n % 10 + 8 * inOctal (n / 10)) % (8 * 8 ^ k) := by rw [in_octal_eq n, Nat.pow_succ']
        _ = n % 10 + 8 * inOctal (n / 10 % 10 ^ k) := by rw [Nat.mod_mul, hmod, hdiv, ih hrest]
        _ = inOctal (n % 10 ^ (k + 1)) := by
            rw [in_octal_eq (n % 10 ^ (k + 1)), Nat.pow_succ', Nat.mod_mul_right_mod,
              Nat.mod_mul_right_div_self]

/-- A number that is small in octal is not too long in decimal. -/
theorem length_of_in_octal {n : Nat} (hpositive : 0 < n) (hsmall : inOctal n < Nat.pow 2 32) :
    (Nat.digits 10 n).length ≤ digitLimit := by
  have hlow : 8 ^ (Nat.digits 10 n).length ≤ 8 * inOctal n :=
    Nat.pow_length_le_mul_ofDigits (Nat.digits_ne_nil_iff_ne_zero.2 hpositive.ne')
      (Nat.getLast_digit_ne_zero 10 hpositive.ne')
  have hhigh : 8 * inOctal n < 8 ^ 12 := by
    have hsmall : inOctal n < 4294967296 := hsmall
    omega
  have hlength := (Nat.pow_lt_pow_iff_right (by decide)).1 (hlow.trans_lt hhigh)
  exact hlength.le.trans (by decide)

/-- The digits of a number are read in octal if all of them are octal. -/
theorem read_octal_of_nat {n : Nat} (h : 0 < n) :
    readOctal? (ofNat n) = if HasOctalDigits n then some (inOctal n) else none := by
  have hdigit : ∀ d ∈ Nat.digits 10 n, d < 10 := fun d hd => Nat.digits_lt_base (by decide) hd
  have hoctal : ∀ d < 10, (decide ('0' ≤ d.digitChar) && decide (d.digitChar ≤ '7')) = true ↔ d ≤ 7 := by
    decide
  have hvalues : ((Nat.digits 10 n).map Nat.digitChar).map (fun c => c.toNat - 0x30) = Nat.digits 10 n := by
    rw [List.map_map]
    exact (List.map_congr_left fun d hd => Nat.toNat_digitChar_sub_48_of_lt_ten (hdigit d hd)).trans
      (List.map_id _)
  have hall : (((Nat.digits 10 n).map Nat.digitChar).reverse.all fun c => '0' ≤ c && c ≤ '7') = true ↔
      HasOctalDigits n := by
    rw [List.all_reverse, List.all_map, List.all_eq_true]
    exact forall₂_congr fun d hd => hoctal d (hdigit d hd)
  rw [readOctal?, of_nat_eq_digits h, List.map_reverse, hvalues, value_of_digits_eq, List.reverse_reverse,
    if_congr hall rfl rfl, inOctal]

/-! ## Bits -/

/-- What becomes of a number whose sum with the offset is positive. -/
theorem mode_of_sum {n : Int} {sum : Nat} (hsum : n + offset = sum) (hpositive : 0 < sum) :
    mode n =
      if digitLimit < (Nat.digits 10 sum).length then .error (.numeral .tooLongToWrite)
      else if ¬ HasOctalDigits sum then .error (.notOctal (ofNat sum))
      else if Nat.pow 2 64 ≤ inOctal sum then .error .exceedsWord
      else if Nat.pow 2 32 ≤ inOctal sum then .error .exceedsMode
      else .ok (inOctal (sum % 10000)) := by
  have hlength : (ofNat sum).length = (Nat.digits 10 sum).length := by
    rw [of_nat_eq_digits hpositive, List.length_reverse, List.length_map]
  unfold mode
  rw [hsum]
  dsimp only
  rw [writeInt, Int.natAbs_natCast, hlength, read_octal_of_nat hpositive]
  by_cases hlimit : (Nat.digits 10 sum).length ≤ digitLimit
  · rw [if_pos hlimit, if_neg (Nat.not_lt.2 hlimit)]
    by_cases hoctal : HasOctalDigits sum
    · have hbits : inOctal sum % Nat.pow 2 12 = inOctal (sum % 10000) := hoctal.in_octal_mod 4
      rw [if_pos hoctal, if_neg (not_not_intro hoctal), ← hbits]
      dsimp only
      rw [if_neg fun h => absurd h.1 (Int.natCast_nonneg _).not_gt]
    · rw [if_neg hoctal, if_pos hoctal]
      rfl
  · rw [if_neg hlimit, if_pos (Nat.lt_of_not_le hlimit)]

/-- A number has bits exactly if its sum with the offset is octal and not too large. -/
theorem mode_eq_ok_iff {n : Int} {sum : Nat} (hsum : n + offset = sum) (hpositive : 0 < sum) {bits : Nat} :
    mode n = .ok bits ↔
      HasOctalDigits sum ∧ inOctal sum < Nat.pow 2 32 ∧ inOctal (sum % 10000) = bits := by
  rw [mode_of_sum hsum hpositive]
  constructor
  · intro h
    split at h
    · cases h
    · split at h
      · cases h
      · next hoctal =>
          split at h
          · cases h
          · split at h
            · cases h
            · next hsmall => exact ⟨not_not.1 hoctal, Nat.lt_of_not_le hsmall, Except.ok.inj h⟩
  · rintro ⟨hoctal, hsmall, rfl⟩
    have hword : inOctal sum < Nat.pow 2 64 := hsmall.trans (by decide)
    rw [if_neg (Nat.not_lt.2 (length_of_in_octal hpositive hsmall)), if_neg (not_not_intro hoctal),
      if_neg (Nat.not_le.2 hword), if_neg (Nat.not_le.2 hsmall)]

/-- Octal digits that stand in the last four places make less than `2 ^ 12`. -/
theorem HasOctalDigits.last_lt {n : Nat} (h : HasOctalDigits n) : inOctal (n % 10000) < 4096 := by
  have hlast : inOctal n % 8 ^ 4 = inOctal (n % 10 ^ 4) := h.in_octal_mod 4
  exact hlast ▸ Nat.mod_lt _ (by decide)

/-- The argument of a permissions marker gives the number that it spells after the first three characters. -/
theorem read_eq_some_iff {commentPrefix text : Text} {line : Int} {m : Marker}
    (hread : Marker.read commentPrefix line text = .marker m) (hkind : m.kind = .permissions) :
    ∃ argument, m.argument = some argument ∧ ∀ number, read? argument = some number ↔
      ∃ ds, ds ≠ [] ∧ ds.length ≤ digitLimit ∧ Spells (argument.drop 3) ds ∧
        number = (Nat.ofDigits 10 ds.reverse : Nat) := by
  obtain ⟨-, -, -, hformed⟩ := Marker.read_eq_marker hread
  obtain ⟨-, -, hdigits⟩ := Marker.check_eq_none_iff.1 hformed.check_eq_none
  obtain ⟨argument, hargument⟩ := hformed.argument_of_kind (by simp [hkind])
  have hword := hformed.argument_word argument hargument
  refine ⟨argument, hargument, fun number => read_int_of_digits (fun c hc => ?_) fun c hc => ?_⟩
  · exact hdigits hkind argument hargument c (List.mem_of_mem_drop hc)
  · exact hword.2 c (List.mem_of_mem_drop hc)

/-- The argument of a permissions marker stands for the decimal number after its first three characters, if
those are digits of a numeral, and for no number otherwise. A number of any size has permission bits exactly if
the sum with a million has only octal digits and is less than `2 ^ 32` in octal, and these are its last four
digits in octal. A digit that is not octal is a fault of value; a sum that is too large in octal is an overflow,
unless it has more decimal digits than may be written. -/
theorem permissions_stand_for_bits :
    (∀ commentPrefix line text m, Marker.read commentPrefix line text = .marker m → m.kind = .permissions →
      ∃ argument, m.argument = some argument ∧ ∀ number, read? argument = some number ↔
        ∃ ds, ds ≠ [] ∧ ds.length ≤ digitLimit ∧ Spells (argument.drop 3) ds ∧
          number = (Nat.ofDigits 10 ds.reverse : Nat)) ∧
    ∀ n : Nat,
      ((∃ bits, mode n = .ok bits) ↔
        HasOctalDigits (n + 1000000) ∧ inOctal (n + 1000000) < Nat.pow 2 32) ∧
      (∀ bits, mode n = .ok bits → bits = inOctal (n % 10000) ∧ bits ≤ 0o7777) ∧
      (¬ HasOctalDigits (n + 1000000) →
        ∃ fault, mode n = .error fault ∧ (Failure.permissions fault).kind = .value) ∧
      (HasOctalDigits (n + 1000000) → Nat.pow 2 32 ≤ inOctal (n + 1000000) →
        ∃ fault, mode n = .error fault ∧ (Failure.permissions fault).kind =
          if (Nat.digits 10 (n + 1000000)).length ≤ digitLimit then .overflow else .value) := by
  refine ⟨fun _ _ _ _ => read_eq_some_iff, fun n => ?_⟩
  have hpositive : 0 < n + 1000000 := by omega
  have hlast : (n + 1000000) % 10000 = n % 10000 := by omega
  have hsum : (n : Int) + offset = (n + 1000000 : Nat) := by
    rw [offset]
    omega
  have hmode := mode_of_sum hsum hpositive
  rw [← hlast]
  -- Nothing below depends on how the sum comes about.
  generalize n + 1000000 = sum at hsum hmode hpositive ⊢
  have hok (bits : Nat) : mode n = .ok bits ↔ _ := mode_eq_ok_iff hsum hpositive
  refine ⟨⟨?_, ?_⟩, ?_, ?_, ?_⟩
  · rintro ⟨bits, hbits⟩
    obtain ⟨hoctal, hsmall, -⟩ := (hok bits).1 hbits
    exact ⟨hoctal, hsmall⟩
  · rintro ⟨hoctal, hsmall⟩
    exact ⟨_, (hok _).2 ⟨hoctal, hsmall, rfl⟩⟩
  · intro bits hbits
    obtain ⟨hoctal, -, rfl⟩ := (hok bits).1 hbits
    exact ⟨rfl, Nat.le_of_lt_succ hoctal.last_lt⟩
  · intro hoctal
    rw [hmode, if_pos hoctal]
    split <;> exact ⟨_, rfl, rfl⟩
  · intro hoctal hlarge
    rw [hmode, if_neg (not_not_intro hoctal), if_pos hlarge]
    split
    · next hlong => exact ⟨_, rfl, by rw [if_neg (Nat.not_le.2 hlong)]; rfl⟩
    · next hshort =>
        rw [if_pos (Nat.le_of_not_lt hshort)]
        split <;> exact ⟨_, rfl, rfl⟩

/-- Permissions whose last two digits are of another script, a number with a digit that is not octal, and one
that is too large in octal. -/
theorem marked_permissions_stand_for_bits :
    let m : Marker := ⟨1, Marker.wholeFile, .permissions, some "1006\u0664\u0664".toList⟩
    Marker.read ['#'] 1 "#... all permissions 1006\u0664\u0664".toList = .marker m ∧
      read? "1006\u0664\u0664".toList = some 644 ∧ mode 644 = .ok 0o644 ∧
      (∃ fault, mode 8 = .error fault ∧ (Failure.permissions fault).kind = .value) ∧
      ∃ fault, mode 77776777777 = .error fault ∧ (Failure.permissions fault).kind = .overflow := by
  intro m
  have hmarker : Marker.read ['#'] 1 "#... all permissions 1006\u0664\u0664".toList = .marker m := by
    decide +kernel
  obtain ⟨hread, hmode⟩ := permissions_stand_for_bits
  refine ⟨hmarker, ?_, ?_, ?_, ?_⟩
  · obtain ⟨argument, hargument, hnumber⟩ := hread _ _ _ _ hmarker rfl
    obtain rfl := Option.some.inj hargument
    exact (hnumber 644).2 ⟨[6, 4, 4], by decide, by decide, .cons rfl (.cons rfl (.cons rfl .nil)), by decide⟩
  · obtain ⟨hok, hbits, -, -⟩ := hmode 644
    obtain ⟨bits, h⟩ := hok.2 ⟨by simp [HasOctalDigits], by simp [inOctal, Nat.ofDigits]⟩
    rw [(hbits bits h).1] at h
    exact h.trans (congrArg Except.ok (by simp [inOctal, Nat.ofDigits]))
  · exact (hmode 8).2.2.1 (by simp [HasOctalDigits])
  · obtain ⟨fault, herror, hkind⟩ := (hmode 77776777777).2.2.2 (by simp [HasOctalDigits])
      (by simp [inOctal, Nat.ofDigits])
    exact ⟨fault, herror, hkind.trans (by simp [digitLimit])⟩

end Permissions

end TrackedSections
