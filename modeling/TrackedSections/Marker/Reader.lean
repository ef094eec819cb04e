import TrackedSections.Marker.Basic

/-!
# Reading markers

A line is a marker when it starts with the comment prefix of its file, the sentinel follows after
blanks at most, and the rest of the line is words: a section, a keyword and perhaps an argument.
Some keywords need an argument, and some belong to the whole file only. A line that breaks such a
rule is content like any other, and `Marker.Fault` says which rule it breaks.
-/

namespace TrackedSections.Marker

/-- Why a line that looks like a marker is none. -/
inductive Fault where
  /-- The keyword has no meaning. -/
  | unknownKeyword (word : Text)
  /-- A hash, source, target or permissions marker has no argument. -/
  | missingArgument (kind : MarkerKind)
  /-- A target or permissions marker names a section. -/
  | wholeFileOnly (kind : MarkerKind)
  /-- The argument of a permissions marker has a character that is no digit. -/
  | notDigits (word : Text)
  deriving DecidableEq, Repr

/-- The words for a fault on a line. -/
def Fault.message (line : Int) : Fault → Text
  | .unknownKeyword word =>
    "unknown marker keyword ".toList ++ word.quoted ++ " on line ".toList ++ Text.ofInt line
  | .missingArgument .source =>
    "missing source file argument on line ".toList ++ Text.ofInt line
  | .missingArgument kind =>
    "missing ".toList ++ kind.keyword ++ " value on line ".toList ++ Text.ofInt line
  | .wholeFileOnly kind =>
    kind.keyword ++ " can only apply to the whole file (line ".toList ++ Text.ofInt line ++ [')']
  | .notDigits word =>
    "invalid permissions ".toList ++ word.quoted ++ " on line ".toList ++ Text.ofInt line

/-- What a line is: content, content that looks like a marker, or a marker. -/
inductive Reading where
  | content
  | faulty (fault : Fault)
  | marker (m : Marker)
  deriving DecidableEq, Repr

/-- The marker that was read, if any. -/
def Reading.marker? : Reading → Option Marker
  | .marker m => some m
  | _ => none

/-- `dropStart? start t` is what follows `start` in a text that starts with it. -/
def dropStart? (start t : Text) : Option Text :=
  if start.isPrefixOf t then some (t.drop start.length) else none

/-- `isSingleLine t` holds when a line feed occurs in `t` at the end only. -/
def isSingleLine (t : Text) : Bool := '\n' ∉ t.dropLast

/-- `wordsOf? commentPrefix line` is the list of words after the sentinel of a line that has the
shape of a marker. Without a comment prefix no line has it. -/
def wordsOf? (commentPrefix line : Text) : Option (List Text) :=
  if commentPrefix = [] then none
  else match dropStart? commentPrefix line with
    | none => none
    | some rest =>
      match dropStart? sentinel rest.trimLeft with
      | none => none
      | some rest => if isSingleLine rest.trimLeft then some rest.words else none

/-- `check kind name argument` is the rule that a marker with these parts breaks, if any. -/
def check (kind : MarkerKind) (name : Text) (argument : Option Text) : Option Fault :=
  match kind with
  | .start | .stop => none
  | .hash | .source => if argument = none then some (.missingArgument kind) else none
  | .target =>
    if name ≠ wholeFile then some (.wholeFileOnly kind)
    else if argument = none then some (.missingArgument kind) else none
  | .permissions =>
    if name ≠ wholeFile then some (.wholeFileOnly kind)
    else match argument with
      | none => some (.missingArgument kind)
      | some word => if word.all Text.isDigit then none else some (.notDigits word)

/-- `ofWords line words` reads the words of a line that has the shape of a marker. -/
def ofWords (line : Int) : List Text → Reading
  | name :: word :: rest =>
    match MarkerKind.ofKeyword? word with
    | none => .faulty (.unknownKeyword word)
    | some kind =>
      match check kind name rest.head? with
      | some fault => .faulty fault
      | none => .marker ⟨line, name, kind, rest.head?⟩
  | _ => .content

/-- `read commentPrefix line text` reads the line `text`, which has the number `line`. -/
def read (commentPrefix : Text) (line : Int) (text : Text) : Reading :=
  match wordsOf? commentPrefix text with
  | none => .content
  | some words => ofWords line words

end TrackedSections.Marker
