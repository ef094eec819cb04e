import TrackedSections.Text.Quoted

/-!
# Permissions

A permissions marker has an argument whose first three characters say what kind of file it is about
and whose rest is the number that is kept. To become permission bits the number is raised by a
million, and the digits of the sum are read in octal; the bits are the last twelve.
-/

namespace TrackedSections.Permissions

/-- The number of characters before the number that is kept. -/
def kindWidth : Nat := 3

/-- The number in the argument of a permissions marker. -/
def read? (argument : Text) : Option Int := Text.readInt? (argument.drop kindWidth)

/-- What is added to a number before its digits are read in octal. -/
def offset : Int := 1000000

/-- Why a number gives no permission bits. -/
inductive Fault where
  /-- The sum has too many digits. -/
  | numeral (fault : Text.NumeralFault)
  /-- The sum, written in decimal, is no numeral in octal. -/
  | notOctal (sum : Text)
  /-- The octal number is negative. -/
  | negative
  /-- The octal number does not fit in 32 bits. -/
  | exceedsMode
  /-- The octal number does not fit in 64 bits. -/
  | exceedsWord
  deriving DecidableEq, Repr

/-- The words for a fault. -/
def Fault.message : Fault → Text
  | .numeral fault => fault.message
  | .notOctal sum =>
    "invalid literal for int() with base 8: ".toList ++ sum.quoted.take 200
  | .negative => "can't convert negative value to unsigned int".toList
  | .exceedsMode => "mode out of range".toList
  | .exceedsWord => "Python int too large to convert to C unsigned long".toList

/-- Whether a fault is about the form of the number and not about its size. -/
def Fault.isFormal : Fault → Bool
  | .numeral _ | .notOctal _ => true
  | .negative | .exceedsMode | .exceedsWord => false

/-- The number that decimal digits denote in octal, if all of them are octal digits. -/
def readOctal? (digits : Text) : Option Nat :=
  if digits.all fun c => '0' ≤ c && c ≤ '7' then
    some (Text.valueOfDigits 8 (digits.map fun c => c.toNat - 0x30))
  else none

/-- The permission bits that a number stands for. -/
def mode (n : Int) : Except Fault Nat :=
  let sum := n + offset
  match Text.writeInt sum with
  | .error fault => .error (.numeral fault)
  | .ok written =>
    match readOctal? (Text.ofNat sum.natAbs) with
    | none => .error (.notOctal written)
    | some value =>
      if sum < 0 ∧ value ≠ 0 then .error .negative
      else if Nat.pow 2 64 ≤ value then .error .exceedsWord
      else if Nat.pow 2 32 ≤ value then .error .exceedsMode
      else .ok (value % Nat.pow 2 12)

end TrackedSections.Permissions
