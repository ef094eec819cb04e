import TrackedSections.Yaml.Token

/-!
# Scanning scalars and node properties

The scanners here start at the first character of what they scan and give the cursor after it. A
scalar over several lines is folded: one line end becomes a space, further ones are kept.
-/

namespace TrackedSections.Yaml

/-- Letters, digits, dash and low line, of which names are made. -/
def isNameChar (c : Char) : Bool := c.isAlphanum || c = '-' || c = '_'

/-- Scans a number of `n` hexadecimal digits. -/
def scanHex (n : Nat) (c : Cursor) : Except Fault (Nat × Cursor) :=
  let digits := c.rest.take n
  match digits.mapM Text.hexValue? with
  | some ds => if ds.length = n then .ok (Text.valueOfDigits 16 ds, c.skip n) else .error (c.skip n).fault
  | none => .error .malformed

/-! ## Properties -/

/-- Scans the name of an anchor or alias after its indicator. -/
def scanName (c : Cursor) : Except Fault (Text × Cursor) :=
  let (name, after) := c.takeWhile isNameChar
  let marks := "?:,]\x7d%@`".toList
  let ends := endsToken after.peek || (after.peek.map marks.contains).getD false
  if name = [] || !ends then .error after.fault else .ok (name, after)

/-- Scans a tag handle: an exclamation mark, alone or around a name. -/
def scanHandle (c : Cursor) : Except Fault (Text × Cursor) :=
  match c.rest with
  | '!' :: ' ' :: _ => .ok (['!'], c.step)
  | '!' :: _ =>
    let (name, after) := c.step.takeWhile isNameChar
    if after.peek = some '!' then .ok ('!' :: name ++ ['!'], after.step) else .error after.fault
  | _ => .error c.fault

/-- The characters that stand for themselves in a tag. -/
def isTagChar (c : Char) : Bool := c.isAlphanum || "-;/?:@&=+$,_.!~*'()[]".toList.contains c

/-- Scans octets written as a percent sign and two hexadecimal digits. At most `fuel` are scanned. -/
def scanOctets : (fuel : Nat) → Cursor → Except Fault (Bytes × Cursor)
  | 0, c => .ok ([], c)
  | fuel + 1, c => do
    if c.peek = some '%' then
      let (n, after) ← scanHex 2 c.step
      let (more, after) ← scanOctets fuel after
      pure (UInt8.ofNat n :: more, after)
    else pure ([], c)

/-- Scans the stretches of a tag, at most `fuel` of them. Escaped octets must be UTF-8. -/
def scanTagParts : (fuel : Nat) → Cursor → Except Fault (Text × Cursor)
  | 0, c => .ok ([], c)
  | fuel + 1, c => do
    let (part, after) := c.takeWhile isTagChar
    if after.peek = some '%' then
      let (octets, after) ← scanOctets (after.size + 1) after
      match Text.decode octets with
      | .error _ => .error after.fault
      | .ok escaped =>
        let (more, after) ← scanTagParts fuel after
        pure (part ++ escaped ++ more, after)
    else pure (part, after)

/-- Scans the text of a tag, which is not empty. -/
def scanTagText (c : Cursor) : Except Fault (Text × Cursor) := do
  let (t, after) ← scanTagParts (c.size + 1) c
  if after.index = c.index then .error after.fault else pure (t, after)

/-- Scans a tag: its handle, if it has one, and the text after it. -/
def scanTag (c : Cursor) : Except Fault (Token × Cursor) := do
  let (token, after) ←
    if c.peekAt 1 = some '<' then do
      let (t, after) ← scanTagText (c.skip 2)
      if after.peek = some '>' then pure (Token.tag none t, after.step) else .error after.fault
    else if endsToken (c.peekAt 1) then pure (Token.tag none ['!'], c.step)
    else
      let word := c.rest.tail.takeWhile fun x => !endsField (some x)
      if '!' ∈ word then do
        let (handle, after) ← scanHandle c
        let (t, after) ← scanTagText after
        pure (Token.tag (some handle) t, after)
      else do
        let (t, after) ← scanTagText c.step
        pure (Token.tag (some ['!']) t, after)
  if endsField after.peek then pure (token, after) else .error after.fault

/-! ## Directives -/

/-- Scans a number in decimal. -/
def scanDecimal (c : Cursor) : Except Fault (Nat × Cursor) :=
  let (digits, after) := c.takeWhile Char.isDigit
  if digits = [] ∨ after.isCutOff then .error after.fault
  else if Text.digitLimit < digits.length then
    .error (.numeral (.tooLongToRead digits.length))
  else .ok (Text.valueOfDigits 10 (digits.filterMap Text.hexValue?), after)

/-- The cursor after spaces and a comment up to the end of a line, where nothing else may stand. -/
def skipToLineEnd (c : Cursor) : Except Fault Cursor :=
  let after := (c.skipWhile (· = ' ')).skipComment
  if endsLine after.peek then .ok after.takeBreak.2 else .error after.fault

/-- Scans a directive after its percent sign. -/
def scanDirective (c : Cursor) : Except Fault (Token × Cursor) := do
  let (name, after) := c.takeWhile isNameChar
  if name = [] ∨ !endsField after.peek then .error after.fault
  else
    let (directive, after) ←
      if name = "YAML".toList then do
        let (major, after) ← scanDecimal (after.skipWhile (· = ' '))
        if after.peek ≠ some '.' then .error after.fault
        else
          let (_, after) ← scanDecimal after.step
          if endsField after.peek then pure (Directive.version major, after)
          else .error after.fault
      else if name = "TAG".toList then do
        let (handle, after) ← scanHandle (after.skipWhile (· = ' '))
        if after.peek ≠ some ' ' then .error after.fault
        else
          let (start, after) ← scanTagText (after.skipWhile (· = ' '))
          if endsField after.peek then pure (Directive.tag handle start, after)
          else .error after.fault
      else pure (Directive.reserved, after.skipWhile (!isBreak ·))
    let after ← skipToLineEnd after
    pure (.directive directive, after)

/-! ## Block scalars -/

/-- How the line ends after the last line of a block scalar are treated. -/
inductive Chomping where
  | strip
  | clip
  | keep
  deriving DecidableEq, Repr

/-- The chomping that a sign stands for. -/
def chompingOf? : Option Char → Option Chomping
  | some '+' => some .keep
  | some '-' => some .strip
  | _ => none

/-- The indentation that a digit stands for. -/
def incrementOf? : Option Char → Option Nat
  | some x => if x.isDigit then some (x.toNat - 0x30) else none
  | none => none

/-- Scans the header of a block scalar: a sign for the chomping and a digit for the indentation, in
either order. -/
def scanBlockHeader (c : Cursor) : Except Fault (Chomping × Option Nat × Cursor) := do
  let (chomping, increment, after) :=
    match chompingOf? c.peek with
    | some chomping =>
      match incrementOf? (c.peekAt 1) with
      | some n => (chomping, some n, c.skip 2)
      | none => (chomping, none, c.step)
    | none =>
      match incrementOf? c.peek with
      | some n =>
        match chompingOf? (c.peekAt 1) with
        | some chomping => (chomping, some n, c.skip 2)
        | none => (Chomping.clip, some n, c.step)
      | none => (Chomping.clip, none, c)
  if increment = some 0 ∨ !endsField after.peek then .error after.fault
  else
    let after ← skipToLineEnd after
    pure (chomping, increment, after)

/-- The line ends before the first line of a block scalar whose indentation is not given, the
greatest indentation among these lines and the cursor after them. -/
def scanLeadingBreaks : (fuel : Nat) → (widest : Int) → Cursor → Text × Int × Cursor
  | 0, widest, c => ([], widest, c)
  | fuel + 1, widest, c =>
    match c.peek with
    | none => ([], widest, c)
    | some x =>
      if x = ' ' then scanLeadingBreaks fuel (max widest c.step.column) c.step
      else if isBreak x then
        let (lineEnd, after) := c.takeBreak
        let (more, widest, after) := scanLeadingBreaks fuel widest after
        (lineEnd ++ more, widest, after)
      else ([], widest, c)

/-- The cursor after the spaces up to a column. -/
def skipIndent (indent : Int) (c : Cursor) : Cursor :=
  c.skip (min (c.rest.takeWhile (· = ' ')).length (indent - c.column).toNat)

/-- The line ends between two lines of a block scalar of a given indentation. -/
def scanBlockBreaks (indent : Int) : (fuel : Nat) → Cursor → Text × Cursor
  | 0, c => ([], c)
  | fuel + 1, c =>
    let c := skipIndent indent c
    match c.peek with
    | none => ([], c)
    | some x =>
      if isBreak x then
        let (lineEnd, after) := c.takeBreak
        let (more, after) := scanBlockBreaks indent fuel after
        (lineEnd ++ more, after)
      else ([], c)

/-- Scans the lines of a block scalar of a given indentation, before which there are the line ends
`breaks`. The result ends in the end of the last line and the line ends after it, both apart. -/
def scanBlockLines (folded : Bool) (indent : Int) :
    (fuel : Nat) → (breaks : Text) → Cursor → Text × Text × Text × Cursor
  | 0, breaks, c => ([], [], breaks, c)
  | fuel + 1, breaks, c =>
    if c.column = indent ∧ c.peek.isSome then
      let startsBlank := (c.peek.map isSpace).getD false
      let (line, after) := c.takeWhile (!isBreak ·)
      let (lineEnd, after) := after.takeBreak
      let (between, after) := scanBlockBreaks indent (after.size + 1) after
      if after.column = indent ∧ after.peek.isSome then
        let joint :=
          if folded ∧ lineEnd = ['\n'] ∧ !startsBlank ∧ !((after.peek.map isSpace).getD false) then
            if between = [] then [' '] else []
          else lineEnd
        let (more, lineEnd, between, after) := scanBlockLines folded indent fuel between after
        (breaks ++ line ++ joint ++ more, lineEnd, between, after)
      else (breaks ++ line, lineEnd, between, after)
    else ([], [], breaks, c)

/-- Scans a block scalar after its indicator, in a collection indented by `outer`. -/
def scanBlockScalar (folded : Bool) (outer : Int) (c : Cursor) : Except Fault (Text × Cursor) := do
  let (chomping, increment, after) ← scanBlockHeader c
  let least := max (outer + 1) 1
  let fuel := after.size + 1
  let (breaks, indent, after) :=
    match increment with
    | none =>
      let (breaks, widest, after) := scanLeadingBreaks fuel 0 after
      (breaks, max least widest, after)
    | some n =>
      let indent := least + n - 1
      let (breaks, after) := scanBlockBreaks indent fuel after
      (breaks, indent, after)
  let (t, lineEnd, between, after) := scanBlockLines folded indent fuel breaks after
  match chomping with
  | .strip => pure (t, after)
  | .clip => pure (t ++ lineEnd, after)
  | .keep => pure (t ++ lineEnd ++ between, after)

/-! ## Quoted scalars -/

/-- The characters that a letter stands for after a backslash. -/
def escapes : List (Char × Char) :=
  [('0', '\x00'), ('a', '\x07'), ('b', '\x08'), ('t', '\t'), ('\t', '\t'), ('n', '\n'),
   ('v', '\x0b'), ('f', '\x0c'), ('r', '\r'), ('e', '\x1b'), (' ', ' '), ('"', '"'),
   ('\\', '\\'), ('/', '/'), ('N', '\u0085'), ('_', '\u00a0'), ('L', '\u2028'),
   ('P', '\u2029')]

/-- How many hexadecimal digits follow a letter after a backslash. -/
def hexEscapes : List (Char × Nat) := [('x', 2), ('u', 4), ('U', 8)]

/-- The character with a code point. -/
def charOfCode (n : Nat) : Except Fault Char :=
  if 0x7fffffff < n then .error .hugeCodePoint
  else if 0x10ffff < n then .error .noCodePoint
  else .ok (Char.ofNat n)

/-- The line ends, with the blanks around them, inside a quoted scalar. -/
def scanQuotedBreaks : (fuel : Nat) → Cursor → Except Fault (Text × Cursor)
  | 0, c => .ok ([], c)
  | fuel + 1, c =>
    if c.atDocumentMark then .error .malformed
    else
      let c := c.skipWhile isSpace
      match c.peek with
      | none => .ok ([], c)
      | some x =>
        if isBreak x then do
          let (lineEnd, after) := c.takeBreak
          let (more, after) ← scanQuotedBreaks fuel after
          pure (lineEnd ++ more, after)
        else .ok ([], c)

/-- Scans the blanks of a quoted scalar, which are folded when they hold a line end. -/
def scanQuotedBlanks (c : Cursor) : Except Fault (Text × Cursor) := do
  let (blanks, after) := c.takeWhile isSpace
  match after.peek with
  | none => .error after.fault
  | some x =>
    if isBreak x then
      let (lineEnd, after) := after.takeBreak
      let (more, after) ← scanQuotedBreaks (after.size + 1) after
      if lineEnd ≠ ['\n'] then pure (lineEnd ++ more, after)
      else if more = [] then pure ([' '], after)
      else pure (more, after)
    else pure (blanks, after)

/-- Scans what a backslash stands for, which is behind it. -/
def scanEscape (c : Cursor) : Except Fault (Text × Cursor) :=
  match c.peek with
  | none => .error c.fault
  | some x =>
    match escapes.lookup x, hexEscapes.lookup x with
    | some y, _ => .ok ([y], c.step)
    | none, some n => do
      let (code, after) ← scanHex n c.step
      let y ← charOfCode code
      pure ([y], after)
    | none, none =>
      if isBreak x then
        let after := c.takeBreak.2
        scanQuotedBreaks (after.size + 1) after
      else .error .malformed

/-- Scans a quoted scalar after its opening quote. At most `fuel` parts are scanned. -/
def scanQuoted (mark : Char) : (fuel : Nat) → Cursor → Except Fault (Text × Cursor)
  | 0, _ => .error .malformed
  | fuel + 1, c => do
    match c.peek with
    | none => .error c.fault
    | some x =>
      if x = mark then
        if mark = '\'' ∧ c.peekAt 1 = some '\'' then
          let (more, after) ← scanQuoted mark fuel (c.skip 2)
          pure ('\'' :: more, after)
        else pure ([], c.step)
      else if x = '\\' ∧ mark = '"' then
        let (part, after) ← scanEscape c.step
        let (more, after) ← scanQuoted mark fuel after
        pure (part ++ more, after)
      else if isSpace x || isBreak x then
        let (part, after) ← scanQuotedBlanks c
        let (more, after) ← scanQuoted mark fuel after
        pure (part ++ more, after)
      else
        let (more, after) ← scanQuoted mark fuel c.step
        pure (x :: more, after)

/-! ## Plain scalars -/

/-- The indicators of flow collections. -/
def isFlowIndicator (c : Char) : Bool := ",[]\x7b\x7d".toList.contains c

/-- The length of the stretch of a plain scalar at the beginning of a text. -/
def plainLength (inFlow : Bool) : Text → Nat
  | [] => 0
  | x :: rest =>
    let endsHere :=
      isSpace x || isBreak x || (inFlow && (isFlowIndicator x || x = '?')) ||
        (x = ':' && (endsToken rest.head? ||
          (inFlow && (rest.head?.map isFlowIndicator).getD false)))
    if endsHere then 0 else plainLength inFlow rest + 1

/-- What stands between two stretches of a plain scalar: nothing, blanks on a line, or line ends. -/
structure PlainGap where
  /-- The text that the gap stands for, if the scalar goes on after it. -/
  joint : Text
  /-- Whether a line ended. -/
  hasBreak : Bool
  after : Cursor

/-- The line ends after the first between two stretches of a plain scalar, or nothing at the mark of
a document. -/
def scanPlainBreaks : (fuel : Nat) → Cursor → Option Text × Cursor
  | 0, c => (some [], c)
  | fuel + 1, c =>
    let c := c.skipWhile (· = ' ')
    match c.peek with
    | none => (some [], c)
    | some x =>
      if isBreak x then
        let (lineEnd, after) := c.takeBreak
        if after.atDocumentMark then (none, after)
        else
          let (more, after) := scanPlainBreaks fuel after
          (more.map (lineEnd ++ ·), after)
      else (some [], c)

/-- Scans the gap after a stretch of a plain scalar. -/
def scanPlainGap (c : Cursor) : PlainGap :=
  let (blanks, after) := c.takeWhile (· = ' ')
  match after.peek with
  | none => ⟨blanks, false, after⟩
  | some x =>
    if isBreak x then
      let (lineEnd, after) := after.takeBreak
      if after.atDocumentMark then ⟨[], true, after⟩
      else
        match scanPlainBreaks (after.size + 1) after with
        | (none, after) => ⟨[], true, after⟩
        | (some more, after) =>
          if lineEnd ≠ ['\n'] then ⟨lineEnd ++ more, true, after⟩
          else if more = [] then ⟨[' '], true, after⟩
          else ⟨more, true, after⟩
    else ⟨blanks, false, after⟩

/-- Scans a plain scalar in a collection indented by `outer`, after the text `joint` of the gap before
it. The result tells whether the cursor stands after a line end. -/
def scanPlain (inFlow : Bool) (outer : Int) :
    (fuel : Nat) → (joint : Text) → (afterBreak : Bool) → Cursor → Text × Bool × Cursor
  | 0, _, afterBreak, c => ([], afterBreak, c)
  | fuel + 1, joint, afterBreak, c =>
    if c.peek = some '#' then ([], afterBreak, c)
    else
      let n := plainLength inFlow c.rest
      if n = 0 then ([], afterBreak, c)
      else
        let stretch := joint ++ c.rest.take n
        let gap := scanPlainGap (c.skip n)
        if gap.joint = [] ∨ gap.after.peek = some '#' ∨
            (!inFlow ∧ gap.after.column < outer + 1) then (stretch, gap.hasBreak, gap.after)
        else
          let (more, afterBreak, after) := scanPlain inFlow outer fuel gap.joint gap.hasBreak gap.after
          (stretch ++ more, afterBreak, after)

end TrackedSections.Yaml
