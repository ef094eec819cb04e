import TrackedSections.Text.Numeral

/-!
# Doubles in text

A double is written with the fewest decimal digits that read back to it. To find them, the double is
taken apart into `mantissa * 2 ^ exponent`. The numbers that round to it form an interval, ends
included when the mantissa is even. For one digit, then two and so on, the two neighbours of the
double among the decimals of that length are tried: the first length with a neighbour in the interval
wins, and of two neighbours the nearer one. All comparisons are between whole numbers.
-/

namespace TrackedSections.Text

namespace Double

/-- A positive double taken apart: its value is `mantissa * 2 ^ exponent`. `isEdge` tells whether the
gap below the double is half as wide as the one above. -/
structure Parts where
  mantissa : Nat
  exponent : Int
  isEdge : Bool

/-- The parts of a finite double without its sign. -/
def partsOf (x : Float) : Parts :=
  let bits := x.toBits.toNat
  let field : Nat := bits / Nat.pow 2 52 % Nat.pow 2 11
  let fraction : Nat := bits % Nat.pow 2 52
  if field = 0 then ⟨fraction, -1074, false⟩
  else ⟨Nat.pow 2 52 + fraction, Int.ofNat field - 1075, fraction = 0 && 1 < field⟩

/-- A rational number given by its numerator and denominator. -/
abbrev Ratio := Nat × Nat

/-- `n * 2 ^ e` for a whole number `n`. -/
def scaleTwo (n : Nat) (e : Int) : Ratio :=
  if 0 ≤ e then (n * Nat.pow 2 e.toNat, 1) else (n, Nat.pow 2 (-e).toNat)

/-- `n * 10 ^ e` for a whole number `n`. -/
def scaleTen (n : Nat) (e : Int) : Ratio :=
  if 0 ≤ e then (n * Nat.pow 10 e.toNat, 1) else (n, Nat.pow 10 (-e).toNat)

/-- Whether one rational number is less than another. -/
def less (a b : Ratio) : Bool := a.1 * b.2 < b.1 * a.2

/-- The distance of two rational numbers over the product of their denominators. -/
def distance (a b : Ratio) : Nat := (a.1 * b.2 - b.1 * a.2) + (b.1 * a.2 - a.1 * b.2)

/-- The decimal exponent of a positive rational number: the number of digits before the point less
one. At most `fuel` places behind the point are tried. -/
def decimalExponent : (fuel : Nat) → Ratio → Int
  | 0, _ => 0
  | fuel + 1, (n, d) =>
    if d ≤ n then ((Nat.toDigits 10 (n / d)).length : Int) - 1
    else decimalExponent fuel (n * 10, d) - 1

/-- Whether a decimal rounds to the double with these parts. -/
def roundsTo (p : Parts) (a : Ratio) : Bool :=
  let low := if p.isEdge then scaleTwo (4 * p.mantissa - 1) (p.exponent - 2)
    else scaleTwo (2 * p.mantissa - 1) (p.exponent - 1)
  let high := scaleTwo (2 * p.mantissa + 1) (p.exponent - 1)
  if p.mantissa % 2 = 0 then !less a low && !less high a else less low a && less a high

/-- The decimal of `count` digits that is nearest to the double, if it rounds to it. -/
def nearest? (p : Parts) (value : Ratio) (unit : Int) : Option Nat :=
  let scaled := scaleTen 1 (-unit)
  let below := value.1 * scaled.1 / (value.2 * scaled.2)
  let fits (n : Nat) := roundsTo p (scaleTen n unit)
  let away (n : Nat) : Nat := distance (scaleTen n unit) value
  match fits below, fits (below + 1) with
  | true, true =>
    let toBelow := away below
    let toAbove := away (below + 1)
    if toBelow < toAbove ∨ (toBelow = toAbove ∧ below % 2 = 0) then some below else some (below + 1)
  | true, false => some below
  | false, true => some (below + 1)
  | false, false => none

/-- The shortest decimal `n * 10 ^ unit` that reads back to the double, from `count` digits on. -/
def shortestFrom (p : Parts) (value : Ratio) (top : Int) : (fuel : Nat) → (count : Nat) → Nat × Int
  | 0, _ => (0, 0)
  | fuel + 1, count =>
    let unit := top - count + 1
    match nearest? p value unit with
    | some n => (n, unit)
    | none => shortestFrom p value top fuel (count + 1)

/-- The digits of the shortest decimal that reads back to a positive double, and the place of the
point counted from before the first digit. -/
def shortest (x : Float) : Text × Int :=
  let p := partsOf x
  let value := scaleTwo p.mantissa p.exponent
  let (n, unit) := shortestFrom p value (decimalExponent 400 value) 20 1
  let digits := Nat.toDigits 10 n
  (digits.take 1 ++ dropTrailing (· = '0') (digits.drop 1), digits.length + unit)

/-- The whole number that a double is, if it is one. -/
def integer? (x : Float) : Option Int :=
  if x.isFinite then
    let p := partsOf x
    let (n, d) := scaleTwo p.mantissa p.exponent
    let sign : Int := if x < 0 then -1 else 1
    if n % d = 0 then some (sign * (n / d : Nat)) else none
  else none

end Double

/-- A double in decimal. The point is written between the digits from 10 ^ -4 up to 10 ^ 16, and an
exponent of at least two digits otherwise. -/
def ofDouble (x : Float) : Text :=
  let sign : Text := if x.toBits.toNat / Nat.pow 2 63 = 1 then ['-'] else []
  if x.isNaN then "nan".toList
  else if x.isInf then sign ++ "inf".toList
  else if x == 0 then sign ++ "0.0".toList
  else
    let (digits, point) := Double.shortest x
    if point ≤ -4 ∨ 16 < point then
      let exponent := point - 1
      let tail := if digits.length = 1 then [] else '.' :: digits.drop 1
      let mark : Text := if exponent < 0 then ['e', '-'] else ['e', '+']
      sign ++ digits.take 1 ++ tail ++ mark ++ padLeft 2 '0' (ofNat exponent.natAbs)
    else if point ≤ 0 then
      sign ++ ['0', '.'] ++ List.replicate (-point).toNat '0' ++ digits
    else
      let whole := digits.take point.toNat
      let whole := whole ++ List.replicate (point.toNat - whole.length) '0'
      let fraction := digits.drop point.toNat
      sign ++ whole ++ '.' :: (if fraction = [] then ['0'] else fraction)

/-- The double nearest to `n * 10 ^ e`. -/
def doubleOfDecimal (n : Nat) (e : Int) : Float :=
  let size := (Nat.toDigits 10 n).length + e
  if n = 0 ∨ size < -400 then 0.0
  else if 400 < size then 1.0 / 0.0
  else if 0 ≤ e then Float.ofScientific n false e.toNat
  else Float.ofScientific n true (-e).toNat

/-- Digits and their values, decimal digits of any script counted. -/
def digitRun (t : Text) : List Nat × Text :=
  ((t.takeWhile isDecimal).filterMap decimalValue?, t.dropWhile isDecimal)

/-- `readDouble? t` is the double that `t` denotes: digits with an optional point and exponent, or a word
for infinity or for what is no number. -/
def readDouble? (t : Text) : Option Float :=
  let body := dropTrailing isNumeralBlank (t.dropWhile isNumeralBlank)
  let (sign, magnitude) : Float × Text := match body with
    | '-' :: rest => (-1.0, rest)
    | '+' :: rest => (1.0, rest)
    | _ => (1.0, body)
  let word := magnitude.map Char.toLower
  if word = "inf".toList ∨ word = "infinity".toList then some (sign * (1.0 / 0.0))
  else if word = "nan".toList then some (0.0 / 0.0)
  else
    let (whole, rest) := digitRun magnitude
    let (fraction, rest) := match rest with
      | '.' :: rest => digitRun rest
      | _ => ([], rest)
    if whole = [] ∧ fraction = [] then none
    else
      let value (e : Int) : Float :=
        sign * doubleOfDecimal (valueOfDigits 10 (whole ++ fraction)) (e - fraction.length)
      match rest with
      | [] => some (value 0)
      | c :: rest =>
        if c ≠ 'e' ∧ c ≠ 'E' then none
        else
          let (negative, rest) := match rest with
            | '-' :: rest => (true, rest)
            | '+' :: rest => (false, rest)
            | _ => (false, rest)
          let (digits, rest) := digitRun rest
          if digits = [] ∨ rest ≠ [] then none
          else
            let e : Int := valueOfDigits 10 digits
            some (value (if negative then -e else e))

end TrackedSections.Text
