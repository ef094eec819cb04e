import TrackedSections.Yaml.Fault

/-!
# A place in a YAML document

A `Cursor` holds the rest of the document together with the index, line and column of its first
character. Lines end at a line feed, a carriage return and the three separators U+0085, U+2028 and
U+2029. A byte order mark takes no column. The text may be cut off where the document cannot be read
any further.
-/

namespace TrackedSections.Yaml

/-- The characters that end a line. -/
def isBreak (c : Char) : Bool :=
  c = '\n' || c = '\r' || c = '\u0085' || c = '\u2028' || c = '\u2029'

/-- A space or a tabulator. -/
def isSpace (c : Char) : Bool := c = ' ' || c = '\t'

/-- `endsToken next` holds when the next character ends a token: a space, a tabulator, the end of the
line or of the document. -/
def endsToken : Option Char → Bool
  | none => true
  | some c => isSpace c || isBreak c

/-- `endsLine next` holds at the end of a line or of the document. -/
def endsLine : Option Char → Bool
  | none => true
  | some c => isBreak c

/-- `endsField next` holds at a space and at the end of a line or of the document. -/
def endsField : Option Char → Bool
  | none => true
  | some c => c = ' ' || isBreak c

/-- A place in a document. -/
structure Cursor where
  rest : Text
  index : Nat
  line : Nat
  column : Int
  /-- Why the document cannot be read after `rest`, if it does not end there. -/
  stop : Option Fault
  /-- The length of the text from its beginning, which is more than enough steps for every scan. -/
  size : Nat

namespace Cursor

/-- The beginning of a document. -/
def start (t : Text) (stop : Option Fault) : Cursor := ⟨t, 0, 0, 0, stop, t.length⟩

/-- Whether the text is cut off here. -/
def isCutOff (c : Cursor) : Bool := c.rest.isEmpty && c.stop.isSome

/-- The fault of a document that does not go on here as it must. -/
def fault (c : Cursor) : Fault := if c.rest.isEmpty then c.stop.getD .malformed else .malformed

/-- The next character. -/
def peek (c : Cursor) : Option Char := c.rest.head?

/-- The character `n` places ahead. -/
def peekAt (c : Cursor) (n : Nat) : Option Char := c.rest[n]?

/-- The cursor after the next character. -/
def step (c : Cursor) : Cursor :=
  match c.rest with
  | [] => c
  | x :: rest =>
    if isBreak x && !(x = '\r' && rest.head? = some '\n') then
      { c with rest, index := c.index + 1, line := c.line + 1, column := 0 }
    else if x = '\ufeff' then { c with rest, index := c.index + 1 }
    else { c with rest, index := c.index + 1, column := c.column + 1 }

/-- The cursor after the next `n` characters. -/
def skip : Nat → Cursor → Cursor
  | 0, c => c
  | n + 1, c => skip n c.step

/-- The cursor after the characters that satisfy `p`. -/
def skipWhile (p : Char → Bool) (c : Cursor) : Cursor := c.skip (c.rest.takeWhile p).length

/-- The characters from here that satisfy `p`, and the cursor after them. -/
def takeWhile (p : Char → Bool) (c : Cursor) : Text × Cursor := (c.rest.takeWhile p, c.skipWhile p)

/-- The cursor after a comment, if there is one. -/
def skipComment (c : Cursor) : Cursor :=
  if c.peek = some '#' then c.skipWhile (!isBreak ·) else c

/-- The end of a line as it counts in a scalar, nothing if there is none, and the cursor after it.
The two Unicode separators stand for themselves and the others for a line feed. -/
def takeBreak (c : Cursor) : Text × Cursor :=
  match c.rest with
  | '\r' :: '\n' :: _ => (['\n'], c.skip 2)
  | x :: _ =>
    if x = '\u2028' || x = '\u2029' then ([x], c.step)
    else if isBreak x then (['\n'], c.step)
    else ([], c)
  | [] => ([], c)

/-- `atMark c` holds at three dashes or dots before the end of a token. -/
def atMark (mark : Char) (c : Cursor) : Bool :=
  match c.rest with
  | x :: y :: z :: rest => x = mark && y = mark && z = mark && endsToken rest.head?
  | _ => false

/-- Whether the beginning or the end of a document is marked here. -/
def atDocumentMark (c : Cursor) : Bool := c.atMark '-' || c.atMark '.'

end Cursor

end TrackedSections.Yaml
