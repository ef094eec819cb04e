import TrackedSections.Text.Utf8

/-!
# What is encoded can be decoded

`decode_encode` says that any text is read back from its octets. It rests on `read_head_encode`: the
octets of a character, before any others, are read as that character.
-/

namespace TrackedSections.Text

namespace Utf8

/-- A number below the number of octets is that of an octet. -/
theorem octet_to_nat {n : Nat} (h : n < 256) : (UInt8.ofNat n).toNat = n := by
  rw [UInt8.toNat_ofNat', Nat.mod_eq_of_lt h]

/-- The octets that may follow the first of a character: continuing ones, less those for which a
shorter form exists or no character. -/
theorem may_second_of {a b : UInt8} (hge : 0x80 ≤ b.toNat) (hlt : b.toNat < 0xc0)
    (he0 : a.toNat = 0xe0 → 0xa0 ≤ b.toNat) (hed : a.toNat = 0xed → b.toNat < 0xa0)
    (hf0 : a.toNat = 0xf0 → 0x90 ≤ b.toNat) (hf4 : a.toNat = 0xf4 → b.toNat < 0x90) :
    maySecond a b = true := by
  unfold maySecond secondRange
  simp only [← UInt8.toNat_inj, Bool.and_eq_true, decide_eq_true_eq, UInt8.le_iff_toNat_le]
  repeat' split
  all_goals simp_all
  all_goals omega

/-- The octets that continue a character. -/
theorem is_continuation_octet {n : Nat} (h : n < 0x40) :
    isContinuation (.ofNat (n + 0x80)) = true := by
  have hn := octet_to_nat (show n + 0x80 < 256 by omega)
  simp only [isContinuation, Bool.and_eq_true, decide_eq_true_eq, UInt8.le_iff_toNat_le,
    UInt8.lt_iff_toNat_lt, hn, UInt8.reduceToNat]
  omega

/-- A continuing octet adds six bits. -/
theorem continue_with_octet {n : Nat} (h : n < 0x40) (value : Nat) :
    continueWith value (.ofNat (n + 0x80)) = value * 64 + n := by
  have hn := octet_to_nat (show n + 0x80 < 256 by omega)
  unfold continueWith
  rw [hn, Nat.add_sub_cancel]

/-- The first octet of a character of more than one octet. -/
theorem not_ascii_of {a : UInt8} (hge : 0xc2 ≤ a.toNat) (hlt : a.toNat < 0xf5) :
    ¬ a < 0x80 ∧ (a < 0xc2 || 0xf5 ≤ a) = false := by
  simp only [UInt8.lt_iff_toNat_lt, UInt8.le_iff_toNat_le, Bool.or_eq_false_iff,
    decide_eq_false_iff_not, UInt8.reduceToNat]
  omega

/-- A character of two octets. -/
theorem read_head_two {x y : Nat} (hx : 2 ≤ x ∧ x < 0x20) (hy : y < 0x40) (rest : Bytes) :
    readHead (.ofNat (x + 0xc0)) (.ofNat (y + 0x80) :: rest) =
      .char (Char.ofNat (x * 64 + y)) 1 := by
  have ha := octet_to_nat (show x + 0xc0 < 256 by omega)
  have hb := octet_to_nat (show y + 0x80 < 256 by omega)
  have hvalue := continue_with_octet hy x
  generalize UInt8.ofNat (x + 0xc0) = a at *
  generalize UInt8.ofNat (y + 0x80) = b at *
  obtain ⟨hascii, hstart⟩ := not_ascii_of (a := a) (by omega) (by omega)
  have hsecond := may_second_of (a := a) (b := b) (by omega) (by omega) (by omega) (by omega)
    (by omega) (by omega)
  have hwidth : a < 0xe0 := by
    simp only [UInt8.lt_iff_toNat_lt, UInt8.reduceToNat]
    omega
  simp [readHead, hascii, hstart, hsecond, hwidth, ha, hvalue]

/-- A character of three octets. -/
theorem read_head_three {x y z : Nat} (hx : x < 0x10) (hy : y < 0x40) (hz : z < 0x40)
    (hshort : x = 0 → 0x20 ≤ y) (hsurrogate : x = 0xd → y < 0x20) (rest : Bytes) :
    readHead (.ofNat (x + 0xe0)) (.ofNat (y + 0x80) :: .ofNat (z + 0x80) :: rest) =
      .char (Char.ofNat ((x * 64 + y) * 64 + z)) 2 := by
  have ha := octet_to_nat (show x + 0xe0 < 256 by omega)
  have hb := octet_to_nat (show y + 0x80 < 256 by omega)
  have hc := is_continuation_octet hz
  have hvalue := continue_with_octet hy x
  have hvalue' := continue_with_octet hz (x * 64 + y)
  generalize UInt8.ofNat (x + 0xe0) = a at *
  generalize UInt8.ofNat (y + 0x80) = b at *
  generalize UInt8.ofNat (z + 0x80) = c at *
  obtain ⟨hascii, hstart⟩ := not_ascii_of (a := a) (by omega) (by omega)
  have hsecond := may_second_of (a := a) (b := b) (by omega) (by omega) (by omega) (by omega)
    (by omega) (by omega)
  have hwidth : ¬ a < 0xe0 ∧ a < 0xf0 := by
    simp only [UInt8.lt_iff_toNat_lt, UInt8.reduceToNat]
    omega
  simp [readHead, hascii, hstart, hsecond, hwidth, ha, hc, hvalue, hvalue']

/-- A character of four octets. -/
theorem read_head_four {x y z w : Nat} (hx : x < 5) (hy : y < 0x40) (hz : z < 0x40) (hw : w < 0x40)
    (hshort : x = 0 → 0x10 ≤ y) (hlong : x = 4 → y < 0x10) (rest : Bytes) :
    readHead (.ofNat (x + 0xf0))
        (.ofNat (y + 0x80) :: .ofNat (z + 0x80) :: .ofNat (w + 0x80) :: rest) =
      .char (Char.ofNat (((x * 64 + y) * 64 + z) * 64 + w)) 3 := by
  have ha := octet_to_nat (show x + 0xf0 < 256 by omega)
  have hb := octet_to_nat (show y + 0x80 < 256 by omega)
  have hc := is_continuation_octet hz
  have hd := is_continuation_octet hw
  have hvalue := continue_with_octet hy x
  have hvalue' := continue_with_octet hz (x * 64 + y)
  have hvalue'' := continue_with_octet hw ((x * 64 + y) * 64 + z)
  generalize UInt8.ofNat (x + 0xf0) = a at *
  generalize UInt8.ofNat (y + 0x80) = b at *
  generalize UInt8.ofNat (z + 0x80) = c at *
  generalize UInt8.ofNat (w + 0x80) = d at *
  obtain ⟨hascii, hstart⟩ := not_ascii_of (a := a) (by omega) (by omega)
  have hsecond := may_second_of (a := a) (b := b) (by omega) (by omega) (by omega) (by omega)
    (by omega) (by omega)
  have hwidth : ¬ a < 0xe0 ∧ ¬ a < 0xf0 := by
    simp only [UInt8.lt_iff_toNat_lt, UInt8.reduceToNat]
    omega
  simp [readHead, hascii, hstart, hsecond, hwidth, ha, hc, hd, hvalue, hvalue', hvalue'']

/-- The octets of a character, before any others, are read as that character. -/
theorem read_head_encode (c : Char) (rest : Bytes) : ∃ first tail,
    String.utf8EncodeChar c = first :: tail ∧
      readHead first (tail ++ rest) = .char c tail.length := by
  have hvalid : c.val.toNat < 0xd800 ∨ 0xdfff < c.val.toNat ∧ c.val.toNat < 0x110000 := c.valid
  have hchar : Char.ofNat c.val.toNat = c := Char.ofNat_toNat c
  unfold String.utf8EncodeChar
  -- From here on the character is only its number, which the widths split into four ranges.
  generalize c.val.toNat = v at hvalid hchar ⊢
  dsimp only
  split
  · next h1 =>
      have hv := octet_to_nat (show v < 256 by omega)
      have hascii : UInt8.ofNat v < 0x80 := by
        simp only [UInt8.lt_iff_toNat_lt, hv, UInt8.reduceToNat]
        omega
      refine ⟨_, _, rfl, ?_⟩
      rw [readHead.eq_def, if_pos hascii, hv, hchar]
      rfl
  · split
    · next h1 h2 =>
        have hvalue : v / 64 % 0x20 * 64 + v % 0x40 = v := by omega
        have hread := read_head_two (x := v / 64 % 0x20) (y := v % 0x40) (by omega) (by omega) rest
        rw [hvalue, hchar] at hread
        exact ⟨_, _, rfl, hread⟩
    · split
      · next h1 h2 h3 =>
          have hvalue : (v / 4096 % 0x10 * 64 + v / 64 % 0x40) * 64 + v % 0x40 = v := by omega
          have hread := read_head_three (x := v / 4096 % 0x10) (y := v / 64 % 0x40)
            (z := v % 0x40) (by omega) (by omega) (by omega) (by omega) (by omega) rest
          rw [hvalue, hchar] at hread
          exact ⟨_, _, rfl, hread⟩
      · next h1 h2 h3 =>
          have hvalue : ((v / 262144 % 0x08 * 64 + v / 4096 % 0x40) * 64 + v / 64 % 0x40) * 64 +
              v % 0x40 = v := by omega
          have hread := read_head_four (x := v / 262144 % 0x08) (y := v / 4096 % 0x40)
            (z := v / 64 % 0x40) (w := v % 0x40) (by omega) (by omega) (by omega) (by omega)
            (by omega) (by omega) rest
          rw [hvalue, hchar] at hread
          exact ⟨_, _, rfl, hread⟩

/-- The octets of a text are read as that text wherever they stand in a file. -/
theorem decode_from_encode (position : Nat) (t : Text) : decodeFrom position t.encode = .ok t := by
  induction t generalizing position with
  | nil => simp [encode, decodeFrom]
  | cons c t ih =>
      obtain ⟨first, tail, hencode, hread⟩ := read_head_encode c (encode t)
      have hcons : encode (c :: t) = first :: (tail ++ encode t) := by
        rw [encode, List.flatMap_cons, hencode, List.cons_append, encode]
      rw [hcons, decodeFrom, hread]
      simp only [List.drop_left, ih, Except.map]

end Utf8

/-- What is encoded is decoded as it was. -/
theorem decode_encode (t : Text) : decode t.encode = .ok t := Utf8.decode_from_encode 0 t

end TrackedSections.Text
