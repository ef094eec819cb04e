import TrackedSections.Digest
import TrackedSections.Marker.Index

/-!
# Sections

A file is a list of sections. A plain section is a range of lines that nothing tracks. A tracked
section has a name, the digest of its content, and the digest that was last accepted for it; the two
differ exactly when the section was edited since. `Tracked.write` gives the lines of a tracked
section, markers included, and `Tracked.lineCount` counts them.
-/

namespace TrackedSections

/-- A range of lines that nothing tracks. -/
structure Plain where
  first : Int
  last : Int
  content : Text
  deriving DecidableEq, Repr

/-- A range of lines between markers. `current` is the digest of the content and `accepted` the one
written in the hash marker. -/
structure Tracked where
  first : Int
  last : Int
  name : Text
  accepted : Text
  source : Option Text
  content : Text
  current : Text
  deriving DecidableEq, Repr

/-- A section of a file. -/
inductive Section where
  | plain (s : Plain)
  | tracked (s : Tracked)
  deriving DecidableEq, Repr

/-- Whether a compilation found something to accept. -/
inductive Change where
  | changed
  | unchanged
  deriving DecidableEq, Repr

namespace Tracked

/-- Why the markers of a name make no section. -/
inductive Fault where
  /-- The begin, end or hash marker is absent, or the hash marker has no hash. -/
  | lacksMarkers (name : Text)
  /-- The end marker stands before the begin marker. -/
  | endsBeforeBegin (name : Text) (stop start : Int)
  deriving DecidableEq, Repr

/-- The words for a fault. -/
def Fault.message : Fault → Text
  | .lacksMarkers name =>
    "section ".toList ++ name.quoted ++ " lacks begin, end or hash markers".toList
  | .endsBeforeBegin name stop start =>
    "section ".toList ++ name.quoted ++ " ends on line ".toList ++ Text.ofInt stop ++
      " before it begins on line ".toList ++ Text.ofInt start

/-- `ofIndex index name` is the section that the markers of `name` describe, still without content
and digest. -/
def ofIndex (index : MarkerIndex) (name : Text) : Except Fault Tracked :=
  match index.get? name .start, index.get? name .stop, index.get? name .hash with
  | some start, some stop, some hash =>
    match hash.argument with
    | none | some [] => .error (.lacksMarkers name)
    | some accepted =>
      if stop.line < start.line then .error (.endsBeforeBegin name stop.line start.line)
      else .ok ⟨start.line, stop.line, name, accepted,
        (index.get? name .source).bind (·.argument), [], []⟩
  | _, _, _ => .error (.lacksMarkers name)

/-- A section is modified when its content is not the one last accepted. -/
def isModified (s : Tracked) : Bool := s.current ≠ s.accepted

/-- The section with the digest of its content. -/
def finalize (s : Tracked) : Tracked := { s with current := Digest.ofText s.content }

/-- The section after its current content is accepted. -/
def accept (s : Tracked) : Tracked := { s with accepted := s.current }

/-- The number of lines of `s.write`: three or four markers and the content. -/
def lineCount (s : Tracked) : Nat :=
  (if s.source.isSome then 4 else 3) + s.content.count '\n'

/-- The lines of the section, its markers in canonical form. The hash marker carries the accepted
digest, so that an edit stays visible after the file is written. -/
def write (commentPrefix : Text) (s : Tracked) : Text :=
  Marker.write commentPrefix .start s.name none ++
    Marker.write commentPrefix .hash s.name (some s.accepted) ++
    (match s.source with
      | none => []
      | some source => Marker.write commentPrefix .source s.name (some source)) ++
    s.content ++ Marker.write commentPrefix .stop s.name none

/-- One line about the section. -/
def report (s : Tracked) : Text :=
  let status := if s.isModified then "modified".toList else "ok".toList
  let origin := match s.source with
    | none | some [] => []
    | some source => " | source ".toList ++ source
  Text.ofInt s.first ++ "-".toList ++ Text.ofInt s.last ++ ": ".toList ++ s.name ++ " | ".toList ++
    status ++ origin

end Tracked

namespace Section

/-- The first line of a section. -/
def first : Section → Int
  | .plain s => s.first
  | .tracked s => s.first

/-- The last line of a section. -/
def last : Section → Int
  | .plain s => s.last
  | .tracked s => s.last

/-- The content of a section, without markers. -/
def content : Section → Text
  | .plain s => s.content
  | .tracked s => s.content

/-- The tracked section, if it is one. -/
def tracked? : Section → Option Tracked
  | .plain _ => none
  | .tracked s => some s

/-- A plain section is never modified. -/
def isModified : Section → Bool
  | .plain _ => false
  | .tracked s => s.isModified

/-- Whether a line lies in the range of a section. -/
def contains (s : Section) (line : Int) : Bool := s.first ≤ line && line ≤ s.last

/-- The section with more content. -/
def append (text : Text) : Section → Section
  | .plain s => .plain { s with content := s.content ++ text }
  | .tracked s => .tracked { s with content := s.content ++ text }

/-- The section with one more line. -/
def appendLine (line : Text) (s : Section) : Section := s.append (Text.closeLine line)

/-- The section with the digest of its content, if it is tracked. -/
def finalize : Section → Section
  | .plain s => .plain s
  | .tracked s => .tracked s.finalize

/-- The section after its content is accepted, if it is tracked. -/
def accept : Section → Section
  | .plain s => .plain s
  | .tracked s => .tracked s.accept

/-- Accepting changes the modified sections only. -/
def change (s : Section) : Change := if s.isModified then .changed else .unchanged

/-- The section `delta` lines further down. -/
def shift (delta : Int) : Section → Section
  | .plain s => .plain { s with first := s.first + delta, last := s.last + delta }
  | .tracked s => .tracked { s with first := s.first + delta, last := s.last + delta }

/-- The lines of a section, markers included. -/
def write (commentPrefix : Text) : Section → Text
  | .plain s => s.content
  | .tracked s => s.write commentPrefix

/-- One line about a section, if it is tracked. -/
def report? : Section → Option Text
  | .plain _ => none
  | .tracked s => some s.report

end Section

end TrackedSections
