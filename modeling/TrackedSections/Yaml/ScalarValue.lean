import TrackedSections.Text.Case
import TrackedSections.Yaml.Value

/-!
# Values of scalars

The text of a scalar is read by the rule of its tag. A number is read without its low lines, and the
parts of a number with colons count sixty times as much as those after them.
-/

namespace TrackedSections.Yaml

/-- Drops low lines. -/
def dropLowLines (t : Text) : Text := t.filter (· ≠ '_')

/-- Whether a number is negative, and its text without the sign. -/
def splitSign (t : Text) : Bool × Text := (t.head? = some '-', dropSign t)

/-- Reads an integer in decimal. -/
def readDecimal (t : Text) : Except Fault Int :=
  match t.overlongDigits?, t.readInt? with
  | some count, _ => .error (.numeral (.tooLongToRead count))
  | none, some n => .ok n
  | none, none => .error (.notInteger 10 t)

/-- The value of a digit in a base. Decimal digits of every script count. -/
def digitIn? (base : Nat) (c : Char) : Option Nat :=
  ((Text.hexValue? c).or (Text.decimalValue? c)).filter (· < base)

/-- The letter that marks numerals in a base. -/
def baseLetter (base : Nat) : Char := if base = 2 then 'b' else if base = 8 then 'o' else 'x'

/-- Drops the mark of a base from a numeral. -/
def dropBaseMark (base : Nat) (t : Text) : Text :=
  match t with
  | '0' :: letter :: digits => if letter.toLower = baseLetter base then digits else t
  | _ => t

/-- Reads an integer in a base that is a power of two. Blanks around it, a sign and the mark of the
base may occur. -/
def readInBase (base : Nat) (t : Text) : Except Fault Int :=
  let body := Text.dropTrailing Text.isNumeralBlank (t.dropWhile Text.isNumeralBlank)
  let (negative, magnitude) := splitSign body
  match (dropBaseMark base magnitude).mapM (digitIn? base) with
  | none | some [] => .error (.notInteger base t)
  | some ds =>
    let value : Int := Text.valueOfDigits base ds
    .ok (if negative then -value else value)

/-- The value of numbers that count sixty times as much as the one after them. -/
def sexagesimal (parts : List Int) : Int := parts.foldl (fun value n => value * 60 + n) 0

/-- The integer that a scalar stands for. -/
def readInteger (content : Text) : Except Fault Int := do
  let (negative, t) := splitSign (dropLowLines content)
  let magnitude ← match t with
    | [] => throw .emptyNumber
    | ['0'] => pure 0
    | '0' :: 'b' :: digits => readInBase 2 digits
    | '0' :: 'x' :: digits => readInBase 16 digits
    | '0' :: _ => readInBase 8 t
    | _ =>
      if ':' ∈ t then (t.pieces ':').mapM readDecimal |>.map sexagesimal else readDecimal t
  pure (if negative then -magnitude else magnitude)

/-- Reads a real number in decimal. -/
def readDouble (t : Text) : Except Fault Float :=
  match t.readDouble? with
  | some x => .ok x
  | none => .error (.notReal t)

/-- The sum of numbers each of which counts `weight` times, and sixty times as much as the one before. -/
def sexagesimalSum (total : Float) (weight : Nat) : List Float → Except Fault Float
  | [] => .ok total
  | x :: rest =>
    let factor := Text.doubleOfDecimal weight 0
    if factor.isInf then .error .tooLarge
    else sexagesimalSum (total + x * factor) (weight * 60) rest

/-- The real number that a scalar stands for, or `none` for the one that has a name and is no number. -/
def readReal (content : Text) : Except Fault (Option Float) := do
  let written := (dropLowLines content).lower
  let (negative, t) := splitSign written
  let sign : Float := if negative then -1.0 else 1.0
  if written = [] then throw .emptyNumber
  else if t = ".inf".toList then pure (some (sign * (1.0 / 0.0)))
  else if t = ".nan".toList then pure none
  else if ':' ∈ t then
    let parts ← (t.pieces ':').mapM readDouble
    pure (some (sign * (← sexagesimalSum 0.0 1 parts.reverse)))
  else pure (some (sign * (← readDouble t)))

/-- What is wrong with a date. -/
def dateFault? (year month day : Nat) : Option TimeFault :=
  if year = 0 then some .year
  else if month = 0 ∨ 12 < month then some .month
  else if day = 0 ∨ daysOf year month < day then some .day
  else none

/-- What is wrong with a time of day. -/
def clockFault? (hour minute second : Nat) : Option TimeFault :=
  if 23 < hour then some .hour
  else if 59 < minute then some .minute
  else if 59 < second then some .second
  else none

/-- The point in time that a scalar stands for. -/
def readTime (content : Text) : Except Fault Value :=
  match readTimeParts? (dropLineFeed content) with
  | none => .error .notTime
  | some parts =>
    let dateFault := dateFault? parts.year parts.month parts.day
    match parts.clock with
    | none =>
      match dateFault with
      | some fault => .error (.time fault)
      | none => .ok (.date parts.year parts.month parts.day)
    | some (hour, minute, second) =>
      let offsetFault : Option TimeFault := match parts.offset with
        | some seconds => if 86400 ≤ seconds.natAbs then some (.offset seconds) else none
        | none => none
      match offsetFault.or (dateFault.or (clockFault? hour minute second)) with
      | some fault => .error (.time fault)
      | none =>
        .ok (.moment ⟨parts.year, parts.month, parts.day, hour, minute, second, parts.fraction,
          parts.offset⟩)

/-- The value of a character in base 64. -/
def base64Digit? (c : Char) : Option Nat :=
  if 'A' ≤ c ∧ c ≤ 'Z' then some (c.toNat - 0x41)
  else if 'a' ≤ c ∧ c ≤ 'z' then some (c.toNat - 0x47)
  else if '0' ≤ c ∧ c ≤ '9' then some (c.toNat + 4)
  else if c = '+' then some 62
  else if c = '/' then some 63
  else none

/-- Octets from characters in base 64, of which `held` are read of the current group with the bits
`bits`. Other characters are passed over, and enough equals signs end the text. -/
def readBase64 (held bits pads : Nat) : Text → Except Fault Bytes
  | [] => if held = 0 then .ok [] else .error .malformed
  | c :: rest =>
    if c = '=' then
      if 2 ≤ held then
        if 4 ≤ held + (pads + 1) then .ok [] else readBase64 held bits (pads + 1) rest
      else readBase64 held bits pads rest
    else
      match base64Digit? c with
      | none => readBase64 held bits pads rest
      | some d =>
        match held with
        | 0 => readBase64 1 d 0 rest
        | 1 => (readBase64 2 (d % 16) 0 rest).map (UInt8.ofNat (bits * 4 + d / 16) :: ·)
        | 2 => (readBase64 3 (d % 4) 0 rest).map (UInt8.ofNat (bits * 16 + d / 4) :: ·)
        | _ => (readBase64 0 0 0 rest).map (UInt8.ofNat (bits * 64 + d) :: ·)

/-- The octets that a scalar stands for. -/
def readOctets (content : Text) : Except Fault Bytes :=
  if content.all (·.toNat < 0x80) then readBase64 0 0 0 content else .error .malformed

/-- The truth value that a scalar stands for. -/
def readBoolean (content : Text) : Except Fault Bool :=
  match booleanWords.lookup content.lower with
  | some b => .ok b
  | none => .error (.notBoolean content.lower)

/-- The kinds of scalars that have a rule. -/
inductive ScalarKind where
  | text
  | null
  | boolean
  | integer
  | real
  | time
  | octets
  deriving DecidableEq, Repr

/-- The kinds by their tags. -/
def scalarKinds : List (Text × ScalarKind) :=
  [(commonTag "str", .text), (commonTag "null", .null), (commonTag "bool", .boolean),
   (commonTag "int", .integer), (commonTag "float", .real), (commonTag "timestamp", .time),
   (commonTag "binary", .octets)]

/-- The value of the scalar with a number, given its kind and its text. -/
def scalarValue (id : NodeId) (kind : ScalarKind) (content : Text) : Except Fault Value :=
  match kind with
  | .text => .ok (.text content)
  | .null => .ok .null
  | .boolean => (readBoolean content).map .boolean
  | .integer => (readInteger content).map .integer
  | .real =>
    (readReal content).map fun
      | none => .notNumber none
      | some x => if x.isNaN then .notNumber (some id) else .real x
  | .time => readTime content
  | .octets => (readOctets content).map .octets

end TrackedSections.Yaml
