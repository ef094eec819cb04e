import TrackedSections.Toml.Writer

/-!
# Reading TOML scalars

Each reader takes the text at its place and gives what it read together with the rest. Text is
quoted in four ways; numbers, dates and times follow a fixed shape.
-/

namespace TrackedSections.Toml

/-- What a reader gives: a value and the text after it. -/
abbrev Result (α : Type) := Except Fault (α × Text)

/-- Drops spaces and tabulators. -/
def skipSpaces (t : Text) : Text := t.dropWhile fun c => c = ' ' || c = '\t'

/-- Drops spaces, tabulators and line feeds. -/
def skipSpaceLines (t : Text) : Text := t.dropWhile fun c => c = ' ' || c = '\t' || c = '\n'

/-- Nothing is added. -/
theorem skipSpaceLines_length_le (t : Text) : (skipSpaceLines t).length ≤ t.length :=
  (List.dropWhile_suffix _).length_le

/-! ## Text -/

/-- The character whose code point has these hexadecimal digits. -/
def charOfHex? (digits : Text) : Option Char :=
  match digits.mapM Text.hexValue? with
  | none => none
  | some ds =>
    let n := Text.valueOfDigits 16 ds
    if n < 0xd800 ∨ (0xdfff < n ∧ n < 0x110000) then some (Char.ofNat n) else none

/-- The character that a letter stands for after a backslash. -/
def unescapeLetter? (c : Char) : Option Char :=
  if c = 'b' then some '\x08'
  else if c = 't' then some '\t'
  else if c = 'n' then some '\n'
  else if c = 'f' then some '\x0c'
  else if c = 'r' then some '\r'
  else if c = '"' then some '"'
  else if c = '\\' then some '\\'
  else none

/-- Puts a character before the text that was read. -/
def Result.cons (c : Char) (r : Result Text) : Result Text := r.map fun (t, rest) => (c :: t, rest)

/-- Reads text after its opening double quote. -/
def readQuoted : Text → Result Text
  | [] => .error .malformed
  | '"' :: rest => .ok ([], rest)
  | '\\' :: 'u' :: a :: b :: c :: d :: rest =>
    match charOfHex? [a, b, c, d] with
    | none => .error .malformed
    | some x => Result.cons x (readQuoted rest)
  | '\\' :: 'U' :: a :: b :: c :: d :: e :: f :: g :: h :: rest =>
    match charOfHex? [a, b, c, d, e, f, g, h] with
    | none => .error .malformed
    | some x => Result.cons x (readQuoted rest)
  | '\\' :: letter :: rest =>
    match unescapeLetter? letter with
    | none => .error .malformed
    | some x => Result.cons x (readQuoted rest)
  | c :: rest =>
    if c = '\\' ∨ isForbidden c then .error .malformed else Result.cons c (readQuoted rest)

/-- Up to two quotes before the three that close text of several lines belong to the text. -/
def closingQuotes (mark : Char) : Text → Result Text
  | a :: b :: rest =>
    if a ≠ mark then .ok ([], a :: b :: rest)
    else if b ≠ mark then .ok ([mark], b :: rest)
    else .ok ([mark, mark], rest)
  | [a] => if a = mark then .ok ([mark], []) else .ok ([], [a])
  | [] => .ok ([], [])

/-- Reads text of several lines after its opening double quotes. A backslash before the end of a
line removes that end and all blanks after it. -/
def readLongQuoted (t : Text) : Result Text :=
  match t with
  | [] => .error .malformed
  | '"' :: '"' :: '"' :: rest => closingQuotes '"' rest
  | '\\' :: 'u' :: a :: b :: c :: d :: rest =>
    match charOfHex? [a, b, c, d] with
    | none => .error .malformed
    | some x => Result.cons x (readLongQuoted rest)
  | '\\' :: 'U' :: a :: b :: c :: d :: e :: f :: g :: h :: rest =>
    match charOfHex? [a, b, c, d, e, f, g, h] with
    | none => .error .malformed
    | some x => Result.cons x (readLongQuoted rest)
  | '\\' :: letter :: rest =>
    if letter = '\n' then readLongQuoted (skipSpaceLines rest)
    else if letter = ' ' ∨ letter = '\t' then
      match skipSpaces rest with
      | '\n' :: _ => readLongQuoted (skipSpaceLines rest)
      | _ => .error .malformed
    else
      match unescapeLetter? letter with
      | none => .error .malformed
      | some x => Result.cons x (readLongQuoted rest)
  | c :: rest =>
    if c = '\\' ∨ (isForbidden c ∧ c ≠ '\n') then .error .malformed
    else Result.cons c (readLongQuoted rest)
termination_by t.length
decreasing_by
  all_goals
    have := skipSpaceLines_length_le rest
    simp only [List.length_cons]
    omega

/-- Reads literal text after its opening apostrophe. -/
def readLiteral : Text → Result Text
  | [] => .error .malformed
  | c :: rest =>
    if c = '\'' then .ok ([], rest)
    else if isForbidden c then .error .malformed
    else Result.cons c (readLiteral rest)

/-- Reads literal text of several lines after its opening apostrophes. -/
def readLongLiteral : Text → Result Text
  | [] => .error .malformed
  | '\'' :: '\'' :: '\'' :: rest => closingQuotes '\'' rest
  | c :: rest =>
    if isForbidden c ∧ c ≠ '\n' then .error .malformed else Result.cons c (readLongLiteral rest)

/-- A line feed right after the opening of text of several lines is dropped. -/
def dropLineFeed : Text → Text
  | '\n' :: rest => rest
  | t => t

/-! ## Numbers -/

/-- The digits of a number after its first, a low line allowed between two. -/
def readMoreDigits (isDigitHere : Char → Bool) : Text → Text × Text
  | [] => ([], [])
  | '_' :: c :: rest =>
    if isDigitHere c then
      let (digits, rest) := readMoreDigits isDigitHere rest
      (c :: digits, rest)
    else ([], '_' :: c :: rest)
  | c :: rest =>
    if isDigitHere c then
      let (digits, rest) := readMoreDigits isDigitHere rest
      (c :: digits, rest)
    else ([], c :: rest)

/-- A run of digits without the low lines between them, if there is one. -/
def readDigits? (isDigitHere : Char → Bool) : Text → Option (Text × Text)
  | c :: rest =>
    if isDigitHere c then
      let (digits, rest) := readMoreDigits isDigitHere rest
      some (c :: digits, rest)
    else none
  | [] => none

/-- The ASCII decimal digits. -/
def isDecimalHere (c : Char) : Bool := '0' ≤ c && c ≤ '9'

/-- The hexadecimal digits. -/
def isHexadecimalHere (c : Char) : Bool := (Text.hexValue? c).isSome

/-- The value of hexadecimal digits in a base. -/
def valueIn (base : Nat) (digits : Text) : Nat :=
  Text.valueOfDigits base (digits.filterMap Text.hexValue?)

/-- Reads an integer with a letter for its base. -/
def readBased? (t : Text) : Option (Value × Text) :=
  let digitsIn (base : Nat) (isDigitHere : Char → Bool) (rest : Text) :=
    (readDigits? isDigitHere rest).map fun (digits, rest) =>
      (Value.integer (valueIn base digits), rest)
  match t with
  | '0' :: 'x' :: rest => digitsIn 16 isHexadecimalHere rest
  | '0' :: 'o' :: rest => digitsIn 8 (fun c => '0' ≤ c && c ≤ '7') rest
  | '0' :: 'b' :: rest => digitsIn 2 (fun c => c = '0' || c = '1') rest
  | _ => none

/-- Reads the whole part of a decimal number, which has no zero before other digits. -/
def readWhole? : Text → Option (Text × Text)
  | '0' :: rest => some (['0'], rest)
  | t => readDigits? isDecimalHere t

/-- Drops a fraction, if there is one. -/
def skipFraction : Text → Option Text
  | '.' :: rest => (readDigits? isDecimalHere rest).map (·.2)
  | _ => none

/-- Drops an exponent, if there is one. -/
def skipExponent : Text → Option Text
  | c :: rest =>
    if c = 'e' ∨ c = 'E' then
      let unsigned := match rest with
        | '+' :: rest | '-' :: rest => rest
        | _ => rest
      (readDigits? isDecimalHere unsigned).map (·.2)
    else none
  | [] => none

/-- Reads a number with an optional sign. -/
def readDecimal? (t : Text) : Option (Result Value) :=
  let (negative, magnitude) := match t with
    | '-' :: rest => (true, rest)
    | '+' :: rest => (false, rest)
    | _ => (false, t)
  match readWhole? magnitude with
  | none => none
  | some (digits, rest) =>
    match skipFraction rest, skipExponent ((skipFraction rest).getD rest) with
    | none, none =>
      if Text.digitLimit < digits.length then
        some (.error (.numeral (.tooLongToRead digits.length)))
      else
        let value : Int := valueIn 10 digits
        some (.ok (.integer (if negative then -value else value), rest))
    | _, some rest => some (.ok (.real, rest))
    | some rest, none => some (.ok (.real, rest))

/-- Reads an infinity or the value that is not a number. -/
def readSpecial? (t : Text) : Option (Value × Text) :=
  let unsigned := match t with
    | '+' :: rest | '-' :: rest => rest
    | _ => t
  match unsigned with
  | 'i' :: 'n' :: 'f' :: rest | 'n' :: 'a' :: 'n' :: rest => some (.real, rest)
  | _ => none

/-! ## Dates and times -/

/-- Reads a number of exactly `n` digits. -/
def readFixed? (n : Nat) (t : Text) : Option (Nat × Text) :=
  let digits := t.take n
  if digits.length = n ∧ digits.all isDecimalHere then some (valueIn 10 digits, t.drop n) else none

/-- Reads a number of two digits between two bounds. -/
def readPair? (least greatest : Nat) (t : Text) : Option (Nat × Text) :=
  match readFixed? 2 t with
  | some (n, rest) => if least ≤ n ∧ n ≤ greatest then some (n, rest) else none
  | none => none

/-- Drops a given character. -/
def skipChar? (c : Char) : Text → Option Text
  | d :: rest => if c = d then some rest else none
  | [] => none

/-- Drops a time of day with an optional fraction of a second. -/
def skipTime? (t : Text) : Option Text := do
  let (_, t) ← readPair? 0 23 t
  let t ← skipChar? ':' t
  let (_, t) ← readPair? 0 59 t
  let t ← skipChar? ':' t
  let (_, t) ← readPair? 0 59 t
  match t with
  | '.' :: c :: rest => if isDecimalHere c then some (rest.dropWhile isDecimalHere) else some t
  | _ => some t

/-- Drops a distance from universal time, if there is one. -/
def skipOffset (t : Text) : Text :=
  let numeric : Option Text := do
    let t ← (skipChar? '+' t).or (skipChar? '-' t)
    let (_, t) ← readPair? 0 23 t
    let t ← skipChar? ':' t
    let (_, t) ← readPair? 0 59 t
    pure t
  match t with
  | 'Z' :: rest | 'z' :: rest => rest
  | _ => numeric.getD t

/-- The days of a month. -/
def daysIn (year month : Nat) : Nat :=
  if month = 2 then
    if year % 4 = 0 ∧ (year % 100 ≠ 0 ∨ year % 400 = 0) then 29 else 28
  else if month = 4 ∨ month = 6 ∨ month = 9 ∨ month = 11 then 30
  else 31

/-- Reads a date, perhaps with a time. The date must exist. -/
def readDate? (t : Text) : Option (Result Value) := do
  let (year, t) ← readFixed? 4 t
  let t ← skipChar? '-' t
  let (month, t) ← readPair? 1 12 t
  let t ← skipChar? '-' t
  let (day, t) ← readPair? 1 31 t
  if year = 0 ∨ daysIn year month < day then pure (.error .malformed)
  else
    let time : Option Text := match t with
      | c :: rest =>
        if c = 'T' ∨ c = 't' ∨ c = ' ' then (skipTime? rest).map skipOffset else none
      | [] => none
    pure (.ok (.moment, time.getD t))

/-- Reads a number, a date or a time. -/
def readPlain (t : Text) : Result Value :=
  match readDate? t with
  | some r => r
  | none =>
    match skipTime? t with
    | some rest => .ok (.moment, rest)
    | none =>
      match readBased? t with
      | some r => .ok r
      | none =>
        match readDecimal? t with
        | some r => r
        | none =>
          match readSpecial? t with
          | some r => .ok r
          | none => .error .malformed

end TrackedSections.Toml
