import Mathlib.Data.List.Basic
import Mathlib.Tactic.SplitIfs
import TrackedSections.Toml.Reader

/-!
# What is written as TOML is read back

Read `Written` first: it says of a text that it is read as a value when a line feed follows. Text
between double quotes and integers are written that way (`written_text`, `written_integer`), and a
document whose lines are bare keys with such values is read as the table of them
(`read_document`).
-/

namespace TrackedSections.Toml

open Text

/-! ## Text between double quotes -/

/-- The four hexadecimal digits of an ASCII character denote that character. -/
theorem char_of_padded_hexadecimal {n : Nat} (h : n < 128) :
    (padLeft 4 '0' (hexadecimal n)).length = 4 ∧
      charOfHex? (padLeft 4 '0' (hexadecimal n)) = some (Char.ofNat n) := by
  revert n
  decide

/-- Controls are ASCII characters. -/
theorem lt_of_is_forbidden {c : Char} (h : isForbidden c = true) : c.toNat < 128 := by
  simp only [isForbidden, Bool.or_eq_true, Bool.and_eq_true, decide_eq_true_eq] at h
  omega

/-- A letter that is written after a backslash stands for the character that it was written for. -/
theorem unescape_of_escape_letter {c letter : Char} (h : escapeLetter? c = some letter) :
    unescapeLetter? letter = some c ∧ letter ≠ 'u' ∧ letter ≠ 'U' := by
  unfold escapeLetter? at h
  split_ifs at h with hc hc hc hc hc hc <;> obtain rfl := Option.some.inj h <;> subst hc <;> decide

/-- The escape of a character is read as that character. -/
theorem read_quoted_escape (c : Char) (t : Text) :
    readQuoted (escape c ++ t) = Result.cons c (readQuoted t) := by
  rw [escape]
  cases hletter : escapeLetter? c with
  | some letter =>
      obtain ⟨hunescape, hu, hU⟩ := unescape_of_escape_letter hletter
      show readQuoted ('\\' :: letter :: t) = _
      rw [readQuoted, hunescape]
      · rintro _ _ _ _ _ rfl
        exact absurd rfl hu
      · rintro _ _ _ _ _ _ _ _ _ rfl
        exact absurd rfl hU
  | none =>
      dsimp only
      split
      · next hforbidden =>
          obtain ⟨hlength, hchar⟩ := char_of_padded_hexadecimal (lt_of_is_forbidden hforbidden)
          obtain ⟨w, x, y, z, hdigits⟩ := List.length_eq_four.1 hlength
          rw [hdigits, Char.ofNat_toNat] at hchar
          rw [hdigits]
          show readQuoted ('\\' :: 'u' :: w :: x :: y :: z :: t) = _
          rw [readQuoted, hchar]
      · next hplain =>
          have hquote : c ≠ '"' := by
            rintro rfl
            cases hletter
          have hslash : c ≠ '\\' := by
            rintro rfl
            cases hletter
          rw [List.singleton_append, readQuoted, if_neg (by simp [hslash, hplain])]
          · exact hquote
          · rintro _ _ _ _ _ rfl
            exact absurd rfl hslash
          · rintro _ _ _ _ _ _ _ _ _ rfl
            exact absurd rfl hslash
          · rintro _ _ rfl
            exact absurd rfl hslash

/-- Text between double quotes is read as that text. -/
theorem read_quoted_escapes (t rest : Text) :
    readQuoted (t.flatMap escape ++ '"' :: rest) = .ok (t, rest) := by
  induction t with
  | nil => rw [List.flatMap_nil, List.nil_append, readQuoted]
  | cons c t ih =>
      rw [List.flatMap_cons, List.append_assoc, read_quoted_escape, ih]
      rfl

/-! ## Values -/

/-- A text is read as a value when a line feed follows, and it does not begin with a blank. -/
structure Written (value : Value) (t : Text) : Prop where
  read_eq : ∀ fuel rest, readValue (fuel + 1) (t ++ '\n' :: rest) = .ok (value, '\n' :: rest)
  skip_eq : ∀ rest, skipSpaces (t ++ '\n' :: rest) = t ++ '\n' :: rest
  is_simple : value.isComposite = false

/-- An escape does not begin with a quote. -/
theorem escape_ne_quote (c : Char) (t rest : Text) : escape c ++ t ≠ '"' :: rest := by
  rw [escape]
  split
  · exact fun h => absurd (List.cons.inj h).1 (by decide)
  · next hletter =>
      split
      · exact fun h => absurd (List.cons.inj h).1 (by decide)
      · intro h
        obtain rfl : c = '"' := (List.cons.inj h).1
        cases hletter

/-- Text between double quotes is read as text. -/
theorem written_text (t : Text) : Written (.text t) (writeText t) where
  read_eq fuel rest := by
    have hread := read_quoted_escapes t ('\n' :: rest)
    have hform : writeText t ++ '\n' :: rest = '"' :: (t.flatMap escape ++ '"' :: '\n' :: rest) := by
      simp [writeText]
    rw [hform, readValue, hread]
    · rfl
    · -- Three quotes in a row would open text of several lines.
      intro more h
      cases t with
      | nil => simp at h
      | cons c t =>
          rw [List.flatMap_cons, List.append_assoc] at h
          exact escape_ne_quote c _ _ h
  skip_eq rest := by simp [writeText, skipSpaces]
  is_simple := rfl

/-! ## Integers -/

/-- The decimal digits are those of a number. -/
theorem is_decimal_here_of_is_digit {c : Char} (h : c.isDigit = true) : isDecimalHere c = true := by
  simpa [isDecimalHere, Char.isDigit, Char.le_def] using h

/-- A decimal digit has its value. -/
theorem hex_value_of_is_decimal_here {c : Char} (h : isDecimalHere c = true) :
    hexValue? c = some (c.toNat - 0x30) := by
  rw [hexValue?, if_pos (by simpa [isDecimalHere] using h)]

/-- The digits of a number are decimal. -/
theorem is_decimal_here_of_mem {n : Nat} {c : Char} (h : c ∈ ofNat n) : isDecimalHere c = true :=
  is_decimal_here_of_is_digit (Nat.isDigit_of_mem_toDigits (by decide) (by decide) h)

/-- Decimal digits have the value of the number that they are the digits of. -/
theorem value_in_of_digits {digits : Text} (h : ∀ c ∈ digits, isDecimalHere c = true) :
    valueIn 10 digits = Nat.ofDigitChars 10 digits 0 := by
  have hfrom : ∀ value, (digits.filterMap hexValue?).foldl (fun value d => value * 10 + d) value =
      Nat.ofDigitChars 10 digits value := by
    induction digits with
    | nil => intro value; rfl
    | cons c digits ih =>
        intro value
        obtain ⟨hc, hdigits⟩ := List.forall_mem_cons.1 h
        rw [List.filterMap_cons_some (hex_value_of_is_decimal_here hc), List.foldl_cons, ih hdigits,
          Nat.ofDigitChars_cons, Nat.mul_comm]
        rfl
  exact hfrom 0

/-- The digits of a number have its value. -/
theorem value_in_of_nat (n : Nat) : valueIn 10 (ofNat n) = n := by
  rw [value_in_of_digits fun c => is_decimal_here_of_mem, ofNat,
    Nat.ofDigitChars_toDigits (by decide) (by decide)]

/-- Digits are read up to the end of their line. -/
theorem read_more_digits {digits : Text} (h : ∀ c ∈ digits, isDecimalHere c = true) (rest : Text) :
    readMoreDigits isDecimalHere (digits ++ '\n' :: rest) = (digits, '\n' :: rest) := by
  induction digits with
  | nil =>
      rw [List.nil_append, readMoreDigits]
      · rfl
      · simp
  | cons c digits ih =>
      obtain ⟨hc, hdigits⟩ := List.forall_mem_cons.1 h
      rw [List.cons_append, readMoreDigits, if_pos hc, ih hdigits]
      rintro _ _ rfl
      exact absurd hc (by decide)

/-- The digit of a positive number is no zero. -/
theorem digit_char_ne_zero : ∀ n < 10, 0 < n → n.digitChar ≠ '0' := by decide

/-- The digits of a positive number do not begin with a zero. -/
theorem of_nat_cons {n : Nat} (h : 0 < n) : ∃ c digits, ofNat n = c :: digits ∧ c ≠ '0' := by
  induction n using Nat.strongRecOn with
  | _ n ih =>
      by_cases hsmall : n < 10
      · exact ⟨_, [], Nat.toDigits_of_lt_base hsmall, digit_char_ne_zero n hsmall h⟩
      · obtain ⟨c, digits, hdigits, hc⟩ := ih (n / 10) (by omega) (by omega)
        refine ⟨c, digits ++ [(n % 10).digitChar], ?_, hc⟩
        rw [ofNat, Nat.toDigits_of_base_le (by decide) (by omega), ← ofNat, hdigits,
          List.cons_append]

/-- The whole part of a number is read up to the end of its line. -/
theorem read_whole_of_nat (n : Nat) (rest : Text) :
    readWhole? (ofNat n ++ '\n' :: rest) = some (ofNat n, '\n' :: rest) := by
  rcases Nat.eq_zero_or_pos n with rfl | hpositive
  · rfl
  · obtain ⟨c, digits, hdigits, hc⟩ := of_nat_cons hpositive
    have hall : ∀ x ∈ c :: digits, isDecimalHere x = true := fun x hx =>
      is_decimal_here_of_mem (hdigits ▸ hx)
    obtain ⟨hfirst, hrest⟩ := List.forall_mem_cons.1 hall
    rw [hdigits, List.cons_append, readWhole?, readDigits?, if_pos hfirst, read_more_digits hrest]
    rintro _ h
    exact hc (List.cons.inj h).1

/-- What comes after the first characters of a line of digits is a digit or the end of the line. -/
theorem head_drop_of_digits {digits : Text} (h : ∀ c ∈ digits, isDecimalHere c = true) (rest : Text)
    {k : Nat} (hk : k ≤ digits.length) : ∃ c more,
      (digits ++ '\n' :: rest).drop k = c :: more ∧ (isDecimalHere c = true ∨ c = '\n') := by
  rw [List.drop_append_of_le_length hk]
  cases hdrop : digits.drop k with
  | nil => exact ⟨'\n', rest, rfl, .inr rfl⟩
  | cons c more =>
      have hmem : c ∈ digits := List.drop_subset k digits (hdrop ▸ List.mem_cons_self)
      exact ⟨c, more ++ '\n' :: rest, rfl, .inl (h c hmem)⟩

/-- Where a fixed number of digits is read from a line of digits, no mark comes after them. -/
theorem read_fixed_then_mark {digits : Text} (h : ∀ c ∈ digits, isDecimalHere c = true) (rest : Text)
    (mark : Char) {k value : Nat} {more : Text} (hmark : isDecimalHere mark = false) (hline : mark ≠ '\n')
    (hread : readFixed? k (digits ++ '\n' :: rest) = some (value, more)) :
    skipChar? mark more = none := by
  unfold readFixed? at hread
  dsimp only at hread
  split at hread
  · next hfixed =>
      obtain ⟨-, rfl⟩ := Prod.mk.inj (Option.some.inj hread)
      obtain ⟨hlength, hall⟩ := hfixed
      -- Fewer digits than that would have taken the end of the line for one.
      have hk : k ≤ digits.length := by
        by_contra hk
        have hmem : '\n' ∈ (digits ++ '\n' :: rest).take k := by
          rw [List.take_append]
          refine List.mem_append_right _ ?_
          obtain ⟨j, hj⟩ : ∃ j, k - digits.length = j + 1 := ⟨k - digits.length - 1, by omega⟩
          rw [hj, List.take_succ_cons]
          exact List.mem_cons_self
        exact absurd (List.all_eq_true.1 hall _ hmem) (by decide)
      obtain ⟨c, more, hdrop, hc⟩ := head_drop_of_digits h rest hk
      rw [hdrop, skipChar?, if_neg]
      rintro rfl
      rcases hc with hc | hc
      · rw [hmark] at hc
        cases hc
      · exact hline hc
  · cases hread

/-- A line of digits is no date. -/
theorem read_date_of_digits {digits : Text} (h : ∀ c ∈ digits, isDecimalHere c = true) (rest : Text) :
    readDate? (digits ++ '\n' :: rest) = none := by
  unfold readDate?
  cases hyear : readFixed? 4 (digits ++ '\n' :: rest) with
  | none => rfl
  | some year =>
      have hskip := read_fixed_then_mark h rest '-' (by decide) (by decide) hyear
      simp [hskip]

/-- A line of digits is no time of day. -/
theorem skip_time_of_digits {digits : Text} (h : ∀ c ∈ digits, isDecimalHere c = true) (rest : Text) :
    skipTime? (digits ++ '\n' :: rest) = none := by
  unfold skipTime? readPair?
  cases hhour : readFixed? 2 (digits ++ '\n' :: rest) with
  | none => rfl
  | some hour =>
      have hskip := read_fixed_then_mark h rest ':' (by decide) (by decide) hhour
      simp [hskip]

/-- A line of digits has no letter for a base. -/
theorem read_based_of_nat (n : Nat) (rest : Text) : readBased? (ofNat n ++ '\n' :: rest) = none := by
  rcases Nat.eq_zero_or_pos n with rfl | hpositive
  · rfl
  · obtain ⟨c, digits, hdigits, hc⟩ := of_nat_cons hpositive
    rw [hdigits, List.cons_append, readBased?]
    · rintro _ h
      exact hc (List.cons.inj h).1
    · rintro _ h
      exact hc (List.cons.inj h).1
    · rintro _ h
      exact hc (List.cons.inj h).1

/-- The digits of a number do not begin with a sign. -/
theorem sign_not_mem_of_nat (n : Nat) : '-' ∉ ofNat n ∧ '+' ∉ ofNat n :=
  ⟨fun h => absurd (is_decimal_here_of_mem h) (by decide),
    fun h => absurd (is_decimal_here_of_mem h) (by decide)⟩

/-- The digits of a number are read as that number unless there are too many of them. -/
theorem read_decimal_of_nat (n : Nat) (rest : Text) :
    readDecimal? (ofNat n ++ '\n' :: rest) = some (if digitLimit < (ofNat n).length then
      .error (.numeral (.tooLongToRead (ofNat n).length)) else .ok (.integer n, '\n' :: rest)) := by
  obtain ⟨hminus, hplus⟩ := sign_not_mem_of_nat n
  obtain ⟨c, digits, hdigits⟩ := List.exists_cons_of_ne_nil (Nat.toDigits_ne_nil (n := n) (b := 10))
  have hwhole := read_whole_of_nat n rest
  have hvalue := value_in_of_nat n
  rw [ofNat, hdigits] at hminus hplus hwhole hvalue ⊢
  rw [List.cons_append] at hwhole ⊢
  unfold readDecimal?
  split
  next heq =>
  split at heq
  · next hc =>
      obtain rfl := (List.cons.inj hc).1
      exact absurd List.mem_cons_self hminus
  · next hc =>
      obtain rfl := (List.cons.inj hc).1
      exact absurd List.mem_cons_self hplus
  · obtain ⟨rfl, rfl⟩ := Prod.mk.inj heq
    rw [hwhole]
    have hmarks : skipFraction ('\n' :: rest) = none ∧ skipExponent ('\n' :: rest) = none := by
      simp [skipFraction, skipExponent]
    dsimp only
    rw [hmarks.1, Option.getD_none, hmarks.2, hvalue, if_neg Bool.false_ne_true]
    exact (apply_ite some _ _ _).symm

/-- The digits of a number that is not too long are read as its opposite after a minus sign. -/
theorem read_decimal_of_minus {n : Nat} (h : (ofNat n).length ≤ digitLimit) (rest : Text) :
    readDecimal? ('-' :: (ofNat n ++ '\n' :: rest)) = some (.ok (.integer (-n), '\n' :: rest)) := by
  simp [readDecimal?, read_whole_of_nat, skipFraction, skipExponent, value_in_of_nat, Nat.not_lt.2 h]

/-- A minus sign is no digit of a date or time. -/
theorem read_fixed_of_minus (k : Nat) (t : Text) : readFixed? (k + 1) ('-' :: t) = none := by
  have hminus : isDecimalHere '-' = false := by decide
  simp [readFixed?, hminus]

/-- The digits of a number are read up to the end of their line unless there are too many of them. -/
theorem read_plain_of_nat (n : Nat) (rest : Text) :
    readPlain (ofNat n ++ '\n' :: rest) = if digitLimit < (ofNat n).length then
      .error (.numeral (.tooLongToRead (ofNat n).length)) else .ok (.integer n, '\n' :: rest) := by
  have hdigits : ∀ c ∈ ofNat n, isDecimalHere c = true := fun c => is_decimal_here_of_mem
  rw [readPlain, read_date_of_digits hdigits, skip_time_of_digits hdigits, read_based_of_nat,
    read_decimal_of_nat]

/-- A number that can be written is written as its numeral, which is not too long. -/
theorem of_write_int {n : Int} {t : Text} (h : writeInt n = .ok t) :
    t = ofInt n ∧ (ofNat n.natAbs).length ≤ digitLimit := by
  unfold writeInt at h
  split at h
  · next hlength => exact ⟨(Except.ok.inj h).symm, hlength⟩
  · cases h

/-- A number that can be written is read up to the end of its line. -/
theorem read_plain_of_int {n : Int} {t : Text} (h : writeInt n = .ok t) (rest : Text) :
    readPlain (t ++ '\n' :: rest) = .ok (.integer n, '\n' :: rest) := by
  obtain ⟨rfl, hlength⟩ := of_write_int h
  cases n with
  | ofNat n =>
      have hlength : (ofNat n).length ≤ digitLimit := hlength
      rw [ofInt, read_plain_of_nat, if_neg (Nat.not_lt.2 hlength)]
      rfl
  | negSucc n =>
      have hlength : (ofNat (n + 1)).length ≤ digitLimit := hlength
      rw [ofInt, List.cons_append, readPlain]
      have hdate : readDate? ('-' :: (ofNat (n + 1) ++ '\n' :: rest)) = none := by
        rw [readDate?, read_fixed_of_minus]
        rfl
      have htime : skipTime? ('-' :: (ofNat (n + 1) ++ '\n' :: rest)) = none := by
        rw [skipTime?, readPair?, read_fixed_of_minus]
        rfl
      have hbased : readBased? ('-' :: (ofNat (n + 1) ++ '\n' :: rest)) = none := by
        rw [readBased?] <;> simp
      rw [hdate, htime, hbased, read_decimal_of_minus hlength]
      rfl

/-- What begins with a digit or a minus sign is read as a number, a date or a time. -/
theorem read_value_of_plain {c : Char} (hc : isDecimalHere c = true ∨ c = '-') (fuel : Nat) (t : Text) :
    readValue (fuel + 1) (c :: t) = readPlain (c :: t) := by
  have hne : c ≠ '"' ∧ c ≠ '\'' ∧ c ≠ 't' ∧ c ≠ 'f' ∧ c ≠ '[' ∧ c ≠ '{' := by
    refine ⟨?_, ?_, ?_, ?_, ?_, ?_⟩ <;> rintro rfl <;> exact absurd hc (by decide)
  rw [readValue]
  all_goals simp [hne]

/-- A number that can be written is read as an integer. -/
theorem written_integer {n : Int} {t : Text} (h : writeInt n = .ok t) : Written (.integer n) t := by
  obtain ⟨c, more, rfl, hc⟩ : ∃ c more, t = c :: more ∧ (isDecimalHere c = true ∨ c = '-') := by
    rw [(of_write_int h).1]
    cases n with
    | ofNat n =>
        obtain ⟨c, digits, hdigits⟩ :=
          List.exists_cons_of_ne_nil (Nat.toDigits_ne_nil (n := n) (b := 10))
        refine ⟨c, digits, hdigits, .inl (is_decimal_here_of_mem (n := n) ?_)⟩
        rw [ofNat, hdigits]
        exact List.mem_cons_self
    | negSucc n => exact ⟨'-', _, rfl, .inr rfl⟩
  refine ⟨fun fuel rest => ?_, fun rest => ?_, rfl⟩
  · rw [List.cons_append, read_value_of_plain hc, ← List.cons_append, read_plain_of_int h]
  · have hblank : c ≠ ' ' ∧ c ≠ '\t' := by
      constructor <;> rintro rfl <;> exact absurd hc (by decide)
    simp [skipSpaces, hblank]

/-! ## Documents -/

/-- A key with a value and the text that the value is written as. -/
structure Entry where
  key : Text
  value : Value
  written : Text

namespace Entry

/-- The line of an entry. -/
def line (e : Entry) : Text := writeEntry e.key e.written

/-- An entry has a bare key, and its text is read as its value. -/
structure Valid (e : Entry) : Prop where
  ne_nil : e.key ≠ []
  is_bare : e.key.all isBare = true
  written : Written e.value e.written

/-- A bare key is read up to the equals sign. -/
theorem Valid.read_key {e : Entry} (h : e.Valid) (fuel : Nat) (rest : Text) :
    readKey (fuel + 1) (e.key ++ ' ' :: '=' :: rest) = .ok ([e.key], '=' :: rest) := by
  obtain ⟨c, more, hkey⟩ := List.exists_cons_of_ne_nil h.ne_nil
  have hbare := h.is_bare
  have hpart : readKeyPart (e.key ++ ' ' :: '=' :: rest) = .ok (e.key, ' ' :: '=' :: rest) := by
    have htake : (e.key ++ ' ' :: '=' :: rest).takeWhile isBare = e.key := by
      rw [List.takeWhile_append_of_pos (List.all_eq_true.1 hbare)]
      simp [show isBare ' ' = false by decide]
    have hdrop : (e.key ++ ' ' :: '=' :: rest).dropWhile isBare = ' ' :: '=' :: rest := by
      rw [List.dropWhile_append_of_pos (List.all_eq_true.1 hbare)]
      simp [show isBare ' ' = false by decide]
    have hfirst : isBare c = true := by
      rw [hkey] at hbare
      exact List.all_eq_true.1 hbare c List.mem_cons_self
    rw [readKeyPart]
    · rw [htake, hdrop, if_neg h.ne_nil]
    all_goals
      rw [hkey]
      rintro _ heq
      obtain rfl := (List.cons.inj heq).1
      exact absurd hfirst (by decide)
  rw [readKey, hpart]
  simp [skipSpaces, bind, Except.bind, pure, Except.pure]

/-- The line of an entry, its parts one after another. -/
theorem line_append (e : Entry) (rest : Text) :
    e.line ++ rest = e.key ++ ' ' :: '=' :: ' ' :: (e.written ++ '\n' :: rest) := by
  simp [line, writeEntry]

/-- The first character of an entry opens neither a header nor a comment, and is no blank. -/
theorem Valid.line_cons {e : Entry} (h : e.Valid) (rest : Text) : ∃ c more,
    e.line ++ rest = c :: more ∧ c ≠ '[' ∧ c ≠ '#' ∧ c ≠ ' ' ∧ c ≠ '\t' ∧ c ≠ '\n' := by
  obtain ⟨c, more, hkey⟩ := List.exists_cons_of_ne_nil h.ne_nil
  have hfirst : isBare c = true :=
    List.all_eq_true.1 h.is_bare c (by rw [hkey]; exact List.mem_cons_self)
  rw [line_append, hkey]
  refine ⟨c, _, rfl, ?_, ?_, ?_, ?_, ?_⟩ <;> rintro rfl <;> exact absurd hfirst (by decide)

/-- The line of an entry gives its key the value. -/
theorem Valid.read_statement {e : Entry} (h : e.Valid) (fuel : Nat) (d : Draft) (rest : Text) :
    readStatement (fuel + 1) d (e.line ++ rest) =
      (d.assign [e.key] e.value).map fun d => (d, '\n' :: rest) := by
  obtain ⟨c, more, hline, hbracket, hcomment, -⟩ := h.line_cons rest
  have hskip : skipSpaces (' ' :: (e.written ++ '\n' :: rest)) = e.written ++ '\n' :: rest :=
    h.written.skip_eq rest
  rw [readStatement]
  · rw [line_append, h.read_key]
    simp only [bind, Except.bind]
    rw [hskip, h.written.read_eq]
    dsimp only
    cases d.assign [e.key] e.value with
    | error fault => rfl
    | ok d => rfl
  all_goals
    rw [hline]
    rintro _ heq
    obtain rfl := (List.cons.inj heq).1
    first | exact hbracket rfl | exact hcomment rfl

end Entry

/-- The draft of a document without headers and compound values. -/
def Draft.flat (table : Table) : Draft := ⟨table, [], [], [], []⟩

/-- A new key with a simple value is added to a draft without headers. -/
theorem Draft.assign_flat {table : Table} {key : Text} {value : Value}
    (hkey : table.lookup key = none) (hsimple : value.isComposite = false) :
    (Draft.flat table).assign [key] value = .ok (.flat (table ++ [(key, value)])) := by
  simp [Draft.assign, Draft.flat, beginningsOf, below, updateNest, addEntry, hkey, hsimple, bind,
    Except.bind, pure, Except.pure]

/-- The table of some entries. -/
def tableOf (entries : List Entry) : Table := entries.map fun e => (e.key, e.value)

/-- A line with an entry adds it to what was read before. -/
theorem read_lines_cons {e : Entry} (h : e.Valid) {table : Table} (hkey : table.lookup e.key = none)
    (fuel : Nat) (rest : Text) :
    readLines (fuel + 1) (.flat table) (e.line ++ rest) =
      readLines fuel (.flat (table ++ [(e.key, e.value)])) rest := by
  obtain ⟨c, more, hline, -, -, hspace, htab, hfeed⟩ := h.line_cons rest
  have hskip : skipSpaces (e.line ++ rest) = e.line ++ rest := by
    rw [hline]
    simp [skipSpaces, hspace, htab]
  rw [readLines, hskip]
  split
  · next hnil => simp [hnil] at hline
  · next heq =>
      rw [hline] at heq
      exact absurd (List.cons.inj heq).1 hfeed
  · rw [h.read_statement, Draft.assign_flat hkey h.written.is_simple]
    simp [Except.map, bind, Except.bind, skipSpaces, skipComment]

/-- A document of entries with different keys is read as the table of them. -/
theorem read_lines_entries {entries : List Entry} (hvalid : ∀ e ∈ entries, e.Valid) {table : Table}
    (hnodup : (table.map (·.1) ++ entries.map (·.key)).Nodup) {fuel : Nat}
    (hfuel : entries.length < fuel) :
    readLines fuel (.flat table) (entries.flatMap (·.line)) = .ok (table ++ tableOf entries) := by
  induction entries generalizing table fuel with
  | nil =>
      obtain ⟨fuel, rfl⟩ : ∃ k, fuel = k + 1 := ⟨fuel - 1, by simp at hfuel; omega⟩
      simp [readLines, skipSpaces, Draft.flat, tableOf]
  | cons e entries ih =>
      obtain ⟨he, hvalid⟩ := List.forall_mem_cons.1 hvalid
      obtain ⟨fuel, rfl⟩ : ∃ k, fuel = k + 1 := ⟨fuel - 1, by simp at hfuel; omega⟩
      have hkey : table.lookup e.key = none := by
        rw [List.lookup_eq_none_iff]
        intro entry hentry
        have hne := (List.nodup_append.1 hnodup).2.2 entry.1 (List.mem_map_of_mem hentry) e.key
          List.mem_cons_self
        simpa using Ne.symm hne
      rw [List.flatMap_cons, read_lines_cons he hkey, ih hvalid]
      · simp [tableOf]
      · simpa using hnodup
      · simpa using hfuel

/-- A document of entries with different keys is read as the table of them. -/
theorem read_document {entries : List Entry} (hvalid : ∀ e ∈ entries, e.Valid)
    (hnodup : (entries.map (·.key)).Nodup) :
    read (entries.flatMap (·.line)) = .ok (tableOf entries) := by
  -- No line is empty, so that there are at least as many characters as lines.
  have hfuel : entries.length < (entries.flatMap (·.line)).length + 1 := by
    clear hvalid hnodup
    induction entries with
    | nil => exact Nat.zero_lt_one
    | cons e entries ih =>
        simp only [List.length_cons, List.flatMap_cons, List.length_append, Entry.line, writeEntry]
          at ih ⊢
        omega
  have hfresh : ((([] : Table).map (·.1)) ++ entries.map (·.key)).Nodup := hnodup
  exact read_lines_entries hvalid hfresh hfuel

end TrackedSections.Toml
