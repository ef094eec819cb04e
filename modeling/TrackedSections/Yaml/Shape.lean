import TrackedSections.Yaml.Fault

/-!
# Shapes of plain scalars

A plain scalar without a tag takes its kind from its shape: a truth value, a real number, an integer,
the key that merges mappings, the null, a point in time, the default key, or text. The shapes are
tried in this order.
-/

namespace TrackedSections.Yaml

/-- The start of the tags of the common kinds. -/
def tagStart : Text := "tag:yaml.org,2002:".toList

/-- The tag of a common kind. -/
def commonTag (kind : String) : Text := tagStart ++ kind.toList

/-- The words for truth values in lower case. -/
def booleanWords : List (Text × Bool) :=
  [("yes".toList, true), ("no".toList, false), ("true".toList, true), ("false".toList, false),
   ("on".toList, true), ("off".toList, false)]

/-- A word in lower case, with a capital, or in capitals. -/
def hasUniformCase (t : Text) : Bool :=
  t.all Char.isLower || t.all Char.isUpper ||
    ((t.take 1).all Char.isUpper && (t.drop 1).all Char.isLower)

/-- The shape of truth values. -/
def isBooleanShape (t : Text) : Bool :=
  (booleanWords.lookup (t.map Char.toLower)).isSome && hasUniformCase t

/-- The shape of the null. -/
def isNullShape (t : Text) : Bool :=
  t = [] || t = ['~'] || (t.map Char.toLower = "null".toList && hasUniformCase t)

/-- Digits and low lines. -/
def isDigitOrLow (c : Char) : Bool := c.isDigit || c = '_'

/-- A digit before digits and low lines. -/
def isDigitRun (t : Text) : Bool := (t.head?.map Char.isDigit).getD false && t.all isDigitOrLow

/-- The text without a sign at its start. -/
def dropSign : Text → Text
  | '+' :: rest | '-' :: rest => rest
  | t => t

/-- One or two digits below sixty. -/
def isSexagesimalDigit : Text → Bool
  | [a] => a.isDigit
  | [a, b] => '0' ≤ a && a ≤ '5' && b.isDigit
  | _ => false

/-- At least two numbers with colons between them, all but the first below sixty. -/
def isSexagesimal (t : Text) : Bool :=
  match t.pieces ':' with
  | first :: rest => isDigitRun first && rest ≠ [] && rest.all isSexagesimalDigit
  | [] => false

/-- An exponent with a sign, or nothing. -/
def isExponentOrEmpty : Text → Bool
  | [] => true
  | e :: sign :: digits =>
    (e = 'e' || e = 'E') && (sign = '+' || sign = '-') && digits ≠ [] && digits.all Char.isDigit
  | [_] => false

/-- The shape of real numbers. -/
def isRealShape (t : Text) : Bool :=
  let unsigned := dropSign t
  match unsigned.splitAtFirst '.' with
  | none => false
  | some (whole, fraction) =>
    let tail := fraction.dropWhile isDigitOrLow
    (isDigitRun whole && isExponentOrEmpty tail) ||
      (t.head? = some '.' && (fraction.head?.map Char.isDigit).getD false &&
        isExponentOrEmpty tail) ||
      (isSexagesimal whole && tail = []) ||
      (whole = [] && ["inf".toList, "Inf".toList, "INF".toList].contains fraction) ||
      (t.head? = some '.' && ["nan".toList, "NaN".toList, "NAN".toList].contains fraction)

/-- The shape of integers. -/
def isIntegerShape (t : Text) : Bool :=
  let isBinary (c : Char) : Bool := c = '0' || c = '1' || c = '_'
  let isOctal (c : Char) : Bool := ('0' ≤ c && c ≤ '7') || c = '_'
  let isHexadecimal (c : Char) : Bool :=
    c.isDigit || ('a' ≤ c && c ≤ 'f') || ('A' ≤ c && c ≤ 'F') || c = '_'
  match dropSign t with
  | ['0'] => true
  | '0' :: 'b' :: digits => digits ≠ [] && digits.all isBinary
  | '0' :: 'x' :: digits => digits ≠ [] && digits.all isHexadecimal
  | '0' :: digits => digits ≠ [] && digits.all isOctal
  | unsigned => isDigitRun unsigned || isSexagesimal unsigned

/-- The parts of a point in time as they are written. -/
structure TimeParts where
  year : Nat
  month : Nat
  day : Nat
  clock : Option (Nat × Nat × Nat)
  /-- Millionths of a second. -/
  fraction : Nat
  /-- The distance from universal time in seconds. -/
  offset : Option Int
  /-- Whether month and day have two digits each. -/
  isLong : Bool

/-- Reads a number of between `least` and `most` digits, as many as there are. -/
def readDigits? (least most : Nat) (t : Text) : Option (Nat × Nat × Text) :=
  let digits := (t.take most).takeWhile Char.isDigit
  if least ≤ digits.length then
    some (Text.valueOfDigits 10 (digits.map fun c => c.toNat - 0x30), digits.length,
      t.drop digits.length)
  else none

/-- Drops a given character. -/
def dropChar? (c : Char) : Text → Option Text
  | d :: rest => if c = d then some rest else none
  | [] => none

/-- Reads a distance from universal time: a letter, hours with a sign, perhaps minutes. -/
def readOffset? (t : Text) : Option (Option Int) :=
  match t.dropWhile fun c => c = ' ' || c = '\t' with
  | [] => if t = [] then some none else none
  | ['Z'] => some (some 0)
  | sign :: rest =>
    if sign ≠ '+' ∧ sign ≠ '-' then none
    else do
      let (hours, _, rest) ← readDigits? 1 2 rest
      let minutes ← match rest with
        | [] => some 0
        | _ => do
          let (minutes, _, rest) ← readDigits? 2 2 (← dropChar? ':' rest)
          if rest = [] then some minutes else none
      let seconds : Int := 3600 * hours + 60 * minutes
      pure (some (if sign = '-' then -seconds else seconds))

/-- Reads a point in time: a date, perhaps with a time of day. -/
def readTimeParts? (t : Text) : Option TimeParts := do
  let (year, _, rest) ← readDigits? 4 4 t
  let (month, monthWidth, rest) ← readDigits? 1 2 (← dropChar? '-' rest)
  let (day, dayWidth, rest) ← readDigits? 1 2 (← dropChar? '-' rest)
  let isLong := monthWidth = 2 ∧ dayWidth = 2
  match rest with
  | [] => pure ⟨year, month, day, none, 0, none, isLong⟩
  | c :: others =>
    let rest ←
      if c = 'T' ∨ c = 't' then some others
      else if c = ' ' ∨ c = '\t' then some (rest.dropWhile fun c => c = ' ' || c = '\t')
      else none
    let (hour, _, rest) ← readDigits? 1 2 rest
    let (minute, _, rest) ← readDigits? 2 2 (← dropChar? ':' rest)
    let (second, _, rest) ← readDigits? 2 2 (← dropChar? ':' rest)
    let (fraction, rest) := match rest with
      | '.' :: rest => (rest.takeWhile Char.isDigit, rest.dropWhile Char.isDigit)
      | _ => ([], rest)
    let millionths := (fraction ++ List.replicate 6 '0').take 6
    let offset ← readOffset? rest
    pure ⟨year, month, day, some (hour, minute, second),
      Text.valueOfDigits 10 (millionths.map fun c => c.toNat - 0x30), offset, isLong⟩

/-- The shape of points in time: a lone date has two digits for month and day. -/
def isTimeShape (t : Text) : Bool :=
  match readTimeParts? t with
  | some parts => parts.isLong || parts.clock.isSome
  | none => false

/-- The text without a line feed at its end, to which shapes are blind. -/
def dropLineFeed (t : Text) : Text := if t.getLast? = some '\n' then t.dropLast else t

/-- The tag of a plain scalar. A line feed alone is text. -/
def tagOfPlain (written : Text) : Text :=
  let t := dropLineFeed written
  if written = ['\n'] then commonTag "str"
  else if isBooleanShape t then commonTag "bool"
  else if isRealShape t then commonTag "float"
  else if isIntegerShape t then commonTag "int"
  else if t = ['<', '<'] then commonTag "merge"
  else if isNullShape t then commonTag "null"
  else if isTimeShape t then commonTag "timestamp"
  else if t = ['='] then commonTag "value"
  else commonTag "str"

end TrackedSections.Yaml
