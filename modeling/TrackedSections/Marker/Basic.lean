import TrackedSections.Text.Quoted

/-!
# Markers

A marker is a comment line that says something about a section of its file: where the section begins
and ends, what its content was when it was last accepted, and where it comes from. Markers of the
section `all` describe the file itself. `Marker.write` gives the canonical form of a marker.
-/

namespace TrackedSections

/-- What a marker says. -/
inductive MarkerKind where
  | start
  | stop
  | source
  | target
  | hash
  | permissions
  deriving DecidableEq, Repr

/-- The keyword that a kind is written with. -/
def MarkerKind.keyword : MarkerKind → Text
  | .start => "begin".toList
  | .stop => "end".toList
  | .source => "source".toList
  | .target => "target".toList
  | .hash => "hash".toList
  | .permissions => "permissions".toList

/-- The keywords of all kinds, with the second names of the two ends of a section. -/
def MarkerKind.keywords : List (Text × MarkerKind) :=
  [("begin".toList, .start), ("start".toList, .start), ("end".toList, .stop),
   ("stop".toList, .stop), ("hash".toList, .hash), ("source".toList, .source),
   ("permissions".toList, .permissions), ("target".toList, .target)]

/-- The kind with a keyword. -/
def MarkerKind.ofKeyword? (word : Text) : Option MarkerKind := keywords.lookup word

/-- A marker on a line of a file. Its scope is the name of a section, or that of the whole file. -/
structure Marker where
  line : Int
  scope : Text
  kind : MarkerKind
  argument : Option Text
  deriving DecidableEq, Repr

namespace Marker

/-- The name that stands for the whole file. -/
def wholeFile : Text := "all".toList

/-- The dots between the comment prefix and the words of a marker. -/
def sentinel : Text := "...".toList

/-- `describesFile m` holds of the markers of the file itself. -/
def describesFile (m : Marker) : Bool := m.scope = wholeFile

/-- `write commentPrefix kind name argument` is the canonical line of a marker, closed by a line
feed. -/
def write (commentPrefix : Text) (kind : MarkerKind) (name : Text) (argument : Option Text) : Text :=
  let tail := match argument with
    | none => []
    | some word => ' ' :: word
  commentPrefix ++ sentinel ++ ' ' :: name ++ ' ' :: kind.keyword ++ tail ++ ['\n']

end Marker

end TrackedSections
