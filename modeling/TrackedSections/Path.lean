import TrackedSections.Text.Basic

/-!
# Paths

A path is a list of names after an anchor. Reading a path drops empty names and `.`, and keeps `..`,
which only the disk can resolve. The path without names and anchor is written `.`.
-/

namespace TrackedSections

/-- Where the names of a path start: at the working directory, or at the root written with one
slash. Exactly two slashes are kept apart from one. -/
inductive Anchor where
  | none
  | slash
  | doubleSlash
  deriving DecidableEq, Repr

/-- The text of an anchor. -/
def Anchor.toText : Anchor → Text
  | .none => []
  | .slash => ['/']
  | .doubleSlash => ['/', '/']

/-- A path to a file or directory. -/
structure Path where
  anchor : Anchor
  names : List Text
  deriving DecidableEq, Repr

namespace Path

/-- The anchor of a path written `t`. -/
def anchorOf : Text → Anchor
  | '/' :: '/' :: '/' :: _ => .slash
  | '/' :: '/' :: _ => .doubleSlash
  | '/' :: _ => .slash
  | _ => .none

/-- The names in a path written `t`. -/
def namesOf (t : Text) : List Text :=
  (t.pieces '/').filter fun name => name ≠ [] ∧ name ≠ ['.']

/-- `ofText t` is the path written `t`. -/
def ofText (t : Text) : Path := ⟨anchorOf t, namesOf t⟩

/-- `p.toText` is the shortest way to write `p`. -/
def toText (p : Path) : Text :=
  match p.anchor, p.names with
  | .none, [] => ['.']
  | anchor, names => anchor.toText ++ Text.joinWith ['/'] names

/-- A path is absolute when it is anchored at the root. -/
def isAbsolute (p : Path) : Bool := p.anchor ≠ .none

/-- `p.join q` is the path `q` seen from the directory `p`. -/
def join (p q : Path) : Path := if q.isAbsolute then q else ⟨p.anchor, p.names ++ q.names⟩

/-- The last name of a path, empty for a path without names. -/
def name (p : Path) : Text := p.names.getLastD []

/-- The path without its last name. -/
def parent (p : Path) : Path := ⟨p.anchor, p.names.dropLast⟩

/-- The extension of a name is what follows its last dot, unless that dot is its first or last
character. -/
def extensionOf (name : Text) : Option Text :=
  let tail := (name.reverse.takeWhile (· ≠ '.')).reverse
  if tail ≠ [] ∧ tail.length + 1 < name.length then some tail else none

/-- `absolute base p` is `p` seen from the directory `base` when it is relative. -/
def absolute (base p : Path) : Path := if p.isAbsolute then p else base.join p

/-- `stepNames place ns` follows the names `ns` from the directory with names `place` when every name
but `..` leads to a directory. -/
def stepNames (place : List Text) : List Text → List Text
  | [] => place
  | name :: rest =>
    if name = ['.', '.'] then stepNames place.dropLast rest else stepNames (place ++ [name]) rest

/-- `resolve base p` is the absolute path without `..` that `p` leads to from the directory `base`
when there are no links. -/
def resolve (base p : Path) : Path := ⟨.slash, stepNames [] (absolute base p).names⟩

end Path

end TrackedSections
