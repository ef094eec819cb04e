import TrackedSections.Yaml.Scalar

/-!
# From text to tokens

The lexer follows the indentation of block collections and the nesting of flow collections. A key may
be written without an indicator: that it was one shows only at the colon after it. So the lexer
remembers where a key may have started at each level, and puts the tokens that begin a mapping and a
key in front of it when the colon comes. Such a key lies on one line and has at most 1024
characters.

The lexer goes no further than it must to be certain of the next token, so that a fault in what comes
later does not hide one in what came before.
-/

namespace TrackedSections.Yaml

/-- A place where a key without an indicator may have started: before the token with a number, at an
index, line and column. It is required when nothing but a key can start there. -/
structure KeyCandidate where
  token : Nat
  required : Bool
  index : Nat
  line : Nat
  column : Int

/-- The state of the lexer. `tokens` are the tokens that are found and not taken, after `taken` others.
`indent` is the column of the innermost block collection and `outer` are those around it;
`candidates` has at most one candidate for each level of flow collections. -/
structure Lexer where
  cursor : Cursor
  tokens : List Token
  taken : Nat
  flowLevel : Int
  indent : Int
  outer : List Int
  keyAllowed : Bool
  candidates : List (Int × KeyCandidate)
  /-- Whether the end of the document is reached. -/
  isDone : Bool

namespace Lexer

/-- The lexer at the beginning of a document. A byte order mark there is skipped. -/
def start (t : Text) (stop : Option Fault) : Lexer :=
  let cursor := Cursor.start t stop
  ⟨if cursor.peek = some '\ufeff' then cursor.step else cursor, [], 0, 0, -1, [], true, [], false⟩

/-- Whether the cursor is inside a flow collection. -/
def inFlow (l : Lexer) : Bool := l.flowLevel ≠ 0

/-- Adds a token at the end. -/
def emit (l : Lexer) (token : Token) : Lexer := { l with tokens := l.tokens ++ [token] }

/-- Inserts a token before the token with a number, which is not taken yet. -/
def insert (l : Lexer) (number : Nat) (token : Token) : Lexer :=
  let place := number - l.taken
  { l with tokens := l.tokens.take place ++ token :: l.tokens.drop place }

/-- Moves to a cursor. -/
def moveTo (l : Lexer) (c : Cursor) : Lexer := { l with cursor := c }

/-- Sets whether a key may start next. -/
def allowKey (l : Lexer) (allowed : Bool) : Lexer := { l with keyAllowed := allowed }

/-- Ends the block collections whose column is right of `column`. -/
def unwindFrom (column : Int) (l : Lexer) : List Int → Lexer
  | [] => if column < l.indent then { l.emit .blockEnd with indent := -1, outer := [] } else l
  | next :: rest =>
    if column < l.indent then
      unwindFrom column { l.emit .blockEnd with indent := next, outer := rest } rest
    else l

/-- Ends the block collections whose column is right of `column`, outside of flow collections. -/
def unwind (column : Int) (l : Lexer) : Lexer :=
  if l.inFlow then l else unwindFrom column l l.outer

/-- Begins a block collection at a column that is right of the innermost one. -/
def indentTo (column : Int) (l : Lexer) : Lexer :=
  { l with indent := column, outer := l.indent :: l.outer }

/-- Forgets the key candidate of the current level, which must not be required. -/
def dropCandidate (l : Lexer) : Except Fault Lexer :=
  match l.candidates.lookup l.flowLevel with
  | none => .ok l
  | some key =>
    if key.required then .error .malformed
    else .ok { l with candidates := l.candidates.filter (·.1 ≠ l.flowLevel) }

/-- Notes that a key may start here. -/
def saveCandidate (l : Lexer) : Except Fault Lexer := do
  if l.keyAllowed then
    let required := !l.inFlow && l.indent = l.cursor.column
    let l ← l.dropCandidate
    let key : KeyCandidate :=
      ⟨l.taken + l.tokens.length, required, l.cursor.index, l.cursor.line, l.cursor.column⟩
    pure { l with candidates := (l.flowLevel, key) :: l.candidates }
  else pure l

/-- Whether a candidate is too far back to be a key. -/
def isStale (l : Lexer) (key : KeyCandidate) : Bool :=
  key.line ≠ l.cursor.line || 1024 < l.cursor.index - key.index

/-- Forgets the candidates that are too far back. None of them may be required. -/
def dropStale (l : Lexer) : Except Fault Lexer :=
  if l.candidates.any fun (_, key) => l.isStale key && key.required then .error .malformed
  else .ok { l with candidates := l.candidates.filter fun (_, key) => !l.isStale key }

/-- Moves over blanks, comments and line ends to the next token. After a line end a key may start,
outside of flow collections. -/
def skipToToken : (fuel : Nat) → Lexer → Lexer
  | 0, l => l
  | fuel + 1, l =>
    let c := (l.cursor.skipWhile (· = ' ')).skipComment
    match c.peek with
    | some x =>
      if isBreak x then
        let l := if l.inFlow then l else l.allowKey true
        skipToToken fuel (l.moveTo c.takeBreak.2)
      else l.moveTo c
    | none => l.moveTo c

/-- Ends everything before a directive or the mark of a document. -/
def beforeDocumentMark (l : Lexer) : Except Fault Lexer := do
  let l ← (l.unwind (-1)).dropCandidate
  pure (l.allowKey false)

/-- The token after one character that begins a flow collection. -/
def openFlow (l : Lexer) (token : Token) : Except Fault Lexer := do
  let l ← l.saveCandidate
  pure { (l.emit token).moveTo l.cursor.step with flowLevel := l.flowLevel + 1, keyAllowed := true }

/-- The token after one character that ends a flow collection. -/
def closeFlow (l : Lexer) (token : Token) : Except Fault Lexer := do
  let l ← l.dropCandidate
  pure { (l.emit token).moveTo l.cursor.step with flowLevel := l.flowLevel - 1, keyAllowed := false }

/-- A comma between the items of a flow collection. -/
def flowEntry (l : Lexer) : Except Fault Lexer := do
  let l ← (l.allowKey true).dropCandidate
  pure ((l.emit .flowEntry).moveTo l.cursor.step)

/-- The dash before an item of a block sequence, which begins the sequence if it is further right. -/
def blockEntry (l : Lexer) : Except Fault Lexer := do
  if !l.inFlow && !l.keyAllowed then .error .malformed
  else
    let column := l.cursor.column
    let l := if !l.inFlow && l.indent < column then (l.indentTo column).emit .blockSequenceStart else l
    let l ← (l.allowKey true).dropCandidate
    pure ((l.emit .blockEntry).moveTo l.cursor.step)

/-- The question mark before a key, which begins a block mapping if it is further right. -/
def explicitKey (l : Lexer) : Except Fault Lexer := do
  if !l.inFlow && !l.keyAllowed then .error .malformed
  else
    let column := l.cursor.column
    let l := if !l.inFlow && l.indent < column then (l.indentTo column).emit .blockMappingStart else l
    let l ← (l.allowKey (!l.inFlow)).dropCandidate
    pure ((l.emit .key).moveTo l.cursor.step)

/-- The colon before a value. If a key may have started at this level, it did. -/
def value (l : Lexer) : Except Fault Lexer := do
  match l.candidates.lookup l.flowLevel with
  | some key =>
    let l := { l with candidates := l.candidates.filter (·.1 ≠ l.flowLevel) }
    let l := l.insert key.token .key
    let l :=
      if !l.inFlow && l.indent < key.column then
        (l.indentTo key.column).insert key.token .blockMappingStart
      else l
    let l := l.allowKey false
    pure ((l.emit .value).moveTo l.cursor.step)
  | none =>
    if !l.inFlow && !l.keyAllowed then .error .malformed
    else
      let column := l.cursor.column
      let l :=
        if !l.inFlow && l.indent < column then (l.indentTo column).emit .blockMappingStart else l
      let l ← (l.allowKey (!l.inFlow)).dropCandidate
      pure ((l.emit .value).moveTo l.cursor.step)

/-- A token that may be a key, given by a scanner. -/
def keyLike (l : Lexer) (scan : Cursor → Except Fault (Token × Cursor)) : Except Fault Lexer := do
  let l ← l.saveCandidate
  let (token, after) ← scan l.cursor
  pure (((l.allowKey false).emit token).moveTo after)

/-- A block scalar. -/
def blockScalar (l : Lexer) (folded : Bool) : Except Fault Lexer := do
  let l ← (l.allowKey true).dropCandidate
  let (content, after) ← scanBlockScalar folded l.indent l.cursor.step
  pure ((l.emit (.scalar content false)).moveTo after)

/-- A plain scalar. -/
def plain (l : Lexer) : Except Fault Lexer := do
  let l ← l.saveCandidate
  let (content, afterBreak, after) :=
    scanPlain l.inFlow l.indent (l.cursor.size + 1) [] false l.cursor
  pure (((l.allowKey afterBreak).emit (.scalar content true)).moveTo after)

/-- The characters that cannot begin a plain scalar, but for three that may do so before a character
that does not end a token. -/
def isIndicator (x : Char) : Bool :=
  isSpace x || isBreak x || "-?:,[]\x7b\x7d#&*!|>'\"%@`".toList.contains x

/-- Whether a plain scalar begins with the character `x` before `next`. -/
def beginsPlain (l : Lexer) (x : Char) (next : Option Char) : Bool :=
  !isIndicator x || (!endsToken next && (x = '-' || (!l.inFlow && (x = '?' || x = ':'))))

/-- The token that begins with the character `x` at the cursor. -/
def token (l : Lexer) (x : Char) : Except Fault Lexer := do
  let next := l.cursor.peekAt 1
  let atLineStart := l.cursor.column = 0
  if x = '%' ∧ atLineStart then
    let l ← l.beforeDocumentMark
    let (token, after) ← scanDirective l.cursor.step
    pure ((l.emit token).moveTo after)
  else if atLineStart ∧ l.cursor.atMark '-' then
    let l ← l.beforeDocumentMark
    pure ((l.emit .documentStart).moveTo (l.cursor.skip 3))
  else if atLineStart ∧ l.cursor.atMark '.' then
    let l ← l.beforeDocumentMark
    pure ((l.emit .documentEnd).moveTo (l.cursor.skip 3))
  else if x = '[' then l.openFlow .flowSequenceStart
  else if x = '\x7b' then l.openFlow .flowMappingStart
  else if x = ']' then l.closeFlow .flowSequenceEnd
  else if x = '\x7d' then l.closeFlow .flowMappingEnd
  else if x = ',' then l.flowEntry
  else if x = '-' ∧ endsToken next then l.blockEntry
  else if x = '?' ∧ (l.inFlow || endsToken next) then l.explicitKey
  else if x = ':' ∧ (l.inFlow || endsToken next) then l.value
  else if x = '*' then
    l.keyLike fun c => (scanName c.step).map fun (name, after) => (.alias name, after)
  else if x = '&' then
    l.keyLike fun c => (scanName c.step).map fun (name, after) => (.anchor name, after)
  else if x = '!' then l.keyLike scanTag
  else if x = '|' ∧ !l.inFlow then l.blockScalar false
  else if x = '>' ∧ !l.inFlow then l.blockScalar true
  else if x = '\'' ∨ x = '"' then
    l.keyLike fun c =>
      (scanQuoted x (c.size + 1) c.step).map fun (t, after) => (.scalar t false, after)
  else if l.beginsPlain x next then l.plain
  else .error .malformed

/-- Ends the document. -/
def finish (l : Lexer) : Except Fault Lexer := do
  let l ← (l.unwind (-1)).dropCandidate
  pure { l with candidates := [], isDone := true }

/-- Finds the next token in the text, and those that come with it. -/
def advance (l : Lexer) : Except Fault Lexer := do
  let l := l.skipToToken (l.cursor.size + 1)
  if l.cursor.isCutOff then throw l.cursor.fault
  let l ← l.dropStale
  let l := l.unwind l.cursor.column
  match l.cursor.peek with
  | none => l.finish
  | some x =>
    let l ← l.token x
    if l.cursor.isCutOff then throw l.cursor.fault else pure l

/-- Whether a further token may still come in front of those that are found. Key candidates that are
too far back are forgotten. -/
def isOpen (l : Lexer) : Except Fault (Bool × Lexer) :=
  if l.isDone then .ok (false, l)
  else if l.tokens = [] then .ok (true, l)
  else do
    let l ← l.dropStale
    pure (l.candidates.any fun (_, key) => key.token = l.taken, l)

/-- Goes on until the next token is certain, at most `fuel` times. -/
def settle : (fuel : Nat) → Lexer → Except Fault Lexer
  | 0, l => .ok l
  | fuel + 1, l => do
    let (isOpen, l) ← l.isOpen
    if isOpen then settle fuel (← l.advance) else pure l

/-- The next token, if there is one. -/
def next (l : Lexer) : Except Fault (Option Token × Lexer) := do
  let (isOpen, l) ← l.isOpen
  let l ← if isOpen then settle (l.cursor.size + 2) l else pure l
  pure (l.tokens.head?, l)

/-- Takes the next token. -/
def take (l : Lexer) : Lexer := { l with tokens := l.tokens.tail, taken := l.taken + 1 }

end Lexer

end TrackedSections.Yaml
