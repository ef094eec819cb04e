import TrackedSections.Text.Digit

/-!
# Integers in text

Whole numbers are written in decimal without grouping. They are read more freely: blanks around the
numeral, a sign, decimal digits of any script and single low lines between digits are accepted.
Numerals of more than `digitLimit` digits are neither read nor written.
-/

namespace TrackedSections.Text

/-- The most decimal digits that a numeral may have. -/
def digitLimit : Nat := 4300

/-- The decimal numeral of a whole number. -/
def ofNat (n : Nat) : Text := Nat.toDigits 10 n

/-- The decimal numeral of an integer, with a minus sign before a negative one. -/
def ofInt : Int → Text
  | .ofNat n => ofNat n
  | .negSucc n => '-' :: ofNat (n + 1)

/-- The characters that may surround a numeral: the blanks but for the information separators. -/
def isNumeralBlank (c : Char) : Bool :=
  isBlank c && !(0x1c ≤ c.toNat && c.toNat ≤ 0x1f)

/-- `unsigned? t` is the list of digit values of `t` when `t` is made of decimal digits with at most
one low line between neighbours. -/
def unsigned? (t : Text) : Option (List Nat) :=
  let groups := pieces '_' t
  if groups.all fun group => !group.isEmpty && group.all isDecimal then
    some (groups.flatten.filterMap decimalValue?)
  else none

/-- `valueOfDigits base ds` is the number with digits `ds`, the most significant one first. -/
def valueOfDigits (base : Nat) (ds : List Nat) : Nat :=
  ds.foldl (fun value d => value * base + d) 0

/-- Why a numeral is neither read nor written. -/
inductive NumeralFault where
  /-- A numeral to be read has too many digits. -/
  | tooLongToRead (digits : Nat)
  /-- A number to be written would have too many digits. -/
  | tooLongToWrite
  deriving DecidableEq, Repr

/-- The words for a numeral that is too long. -/
def NumeralFault.message : NumeralFault → Text
  | .tooLongToRead digits =>
    "Exceeds the limit (4300 digits) for integer string conversion: value has ".toList ++
      ofNat digits ++
      " digits; use sys.set_int_max_str_digits() to increase the limit".toList
  | .tooLongToWrite =>
    "Exceeds the limit (4300 digits) for integer string conversion; ".toList ++
      "use sys.set_int_max_str_digits() to increase the limit".toList

/-- `writeInt n` is the numeral of `n` when it is not too long. -/
def writeInt (n : Int) : Except NumeralFault Text :=
  if (ofNat n.natAbs).length ≤ digitLimit then .ok (ofInt n) else .error .tooLongToWrite

/-- Whether a number is negative, and its numeral without the sign. -/
def splitSign (t : Text) : Bool × Text :=
  match t with
  | '-' :: rest => (true, rest)
  | '+' :: rest => (false, rest)
  | _ => (false, t)

/-- `overlongDigits? t` is the number of digits that `t` begins with, after blanks and a sign, if that
is too many. What comes after them makes no difference. -/
def overlongDigits? (t : Text) : Option Nat :=
  let (_, magnitude) := splitSign (t.dropWhile isNumeralBlank)
  match unsigned? (magnitude.takeWhile fun c => isDecimal c || c = '_') with
  | none => none
  | some ds => if digitLimit < ds.length then some ds.length else none

/-- `readInt? t` is the integer that `t` denotes, or `none` when `t` is no numeral or has too many
digits. -/
def readInt? (t : Text) : Option Int :=
  let (negative, magnitude) := splitSign (dropTrailing isNumeralBlank (t.dropWhile isNumeralBlank))
  match unsigned? magnitude with
  | none => none
  | some ds =>
    if digitLimit < ds.length then none
    else
      let value : Int := valueOfDigits 10 ds
      some (if negative then -value else value)

/-- The digits of a number in hexadecimal, in lower case. -/
def hexadecimal (n : Nat) : Text := Nat.toDigits 16 n

/-- The digits of a number in octal. -/
def octal (n : Nat) : Text := Nat.toDigits 8 n

end TrackedSections.Text
