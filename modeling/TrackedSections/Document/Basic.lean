import TrackedSections.Marker.Reader
import TrackedSections.Sidecar

/-!
# Documents

A document is a tracked file. It is either divided into sections, which cover its lines in order, or
backed by a sidecar, which tracks it as a whole. `Document.write` gives the text of the file: the
properties of the file come first, or right after a hashbang, and then the sections.
-/

namespace TrackedSections

/-- A tracked file. A document with a sidecar has no sections. -/
structure Document where
  commentPrefix : Text
  sections : List Section
  markers : List Marker
  path : Option Path
  target : Option Text
  permissions : Option Int
  permissionsArgument : Option Text
  sidecar : Option Sidecar
  isReadOnly : Bool
  finalNewline : Bool
  deriving DecidableEq, Repr

namespace Document

/-- The document without sections. -/
def empty (commentPrefix : Text) (path : Option Path) (finalNewline : Bool) : Document :=
  ⟨commentPrefix, [], [], path, none, none, none, none, false, finalNewline⟩

/-- The document of a file with a sidecar. -/
def ofSidecar (s : Sidecar) (path : Option Path) (isReadOnly : Bool) : Document :=
  ⟨[], [], [], path, s.target, s.permissions, none, some s, isReadOnly, true⟩

/-- The name under which a document appears in notices. -/
def name (d : Document) : Text :=
  match d.path with
  | some path => path.toText
  | none => "<memory>".toList

/-- Whether a sidecar tracks the file. -/
def hasSidecar (d : Document) : Bool := d.sidecar.isSome

/-- The tracked sections. -/
def tracked (d : Document) : List Tracked := d.sections.filterMap (·.tracked?)

/-- The names of the tracked sections. -/
def names (d : Document) : List Text := d.tracked.map (·.name)

/-- The first tracked section of a name. -/
def get? (d : Document) (name : Text) : Option Tracked := d.tracked.find? (·.name = name)

/-- A document is managed when something in it is tracked. -/
def isManaged (d : Document) : Bool := d.hasSidecar || !d.tracked.isEmpty

/-- A document is modified when something in it was edited. -/
def isModified (d : Document) : Bool :=
  match d.sidecar with
  | some s => s.isModified
  | none => d.tracked.any (·.isModified)

/-- The document after everything in it is accepted. -/
def accept (d : Document) : Document :=
  match d.sidecar with
  | some s => { d with sidecar := some s.accept }
  | none => { d with sections := d.sections.map (·.accept) }

/-- Whether accepting everything changes the document. -/
def change (d : Document) : Change :=
  match d.sidecar with
  | some s => s.change
  | none => if d.sections.any (·.isModified) then .changed else .unchanged

/-- Makes the first tracked section of a name plain. -/
def untrack? (name : Text) : List Section → Option (List Section)
  | [] => none
  | .plain s :: rest => (untrack? name rest).map (.plain s :: ·)
  | .tracked s :: rest =>
    if s.name = name then some (.plain ⟨s.first, s.last, s.content⟩ :: rest)
    else (untrack? name rest).map (.tracked s :: ·)

/-- The document without tracking for a section, if it has one of that name. The content stays and
the markers go. -/
def delete? (d : Document) (name : Text) : Option Document :=
  (untrack? name d.sections).map fun sections =>
    { d with sections, markers := d.markers.filter (·.scope ≠ name) }

/-- A line that names the interpreter of a script. -/
def isHashbang (line : Text) : Bool := "#!/".toList.isPrefixOf line

/-- The hashbang of a document, when it starts with plain content. -/
def hashbang? (d : Document) : Option Text :=
  match d.sections with
  | .plain s :: _ =>
    let line := s.content.firstLine
    if isHashbang line then some line else none
  | _ => none

/-- The markers of the file itself in canonical form. -/
def properties (d : Document) : Text :=
  (match d.target with
    | none => []
    | some target => Marker.write d.commentPrefix .target Marker.wholeFile (some target)) ++
  (match d.permissionsArgument with
    | none => []
    | some argument =>
      Marker.write d.commentPrefix .permissions Marker.wholeFile (some argument))

/-- The text of the file, its last line closed. -/
def closedText (d : Document) : Text :=
  match d.hashbang?, d.sections with
  | some line, first :: rest =>
    line.closeLine ++ d.properties ++ first.content.drop (line.length + 1) ++
      rest.flatMap (·.write d.commentPrefix)
  | _, sections => d.properties ++ sections.flatMap (·.write d.commentPrefix)

/-- The text without the line feed at its end, if there is one. -/
def openLastLine (t : Text) : Text := if t.getLast? = some '\n' then t.dropLast else t

/-- The text of the file. -/
def write (d : Document) : Text :=
  match d.sidecar with
  | some s => Text.decodeReplacing s.content
  | none => if d.finalNewline then d.closedText else openLastLine d.closedText

/-- A few lines about the document, with `shown` as its comment prefix. -/
def reportAs (shown : Text) (d : Document) : Except Failure Text := do
  let body := match d.sidecar with
    | some s => [s.report]
    | none => ("comment syntax: ".toList ++ shown) :: d.tracked.map (·.report)
  let permissions ← match d.permissions with
    | none => pure []
    | some n =>
      match Text.writeInt n with
      | .ok written => pure ["target permissions: ".toList ++ written]
      | .error fault => throw (.numeral fault)
  let target := match d.target with
    | none => []
    | some target => ["target: ".toList ++ target]
  pure (Text.joinWith ['\n'] (body ++ permissions ++ target))

/-- A few lines about the document. -/
def report (d : Document) : Except Failure Text := d.reportAs d.commentPrefix

end Document

end TrackedSections
