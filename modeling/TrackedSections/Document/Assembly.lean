import TrackedSections.Document.Basic
import TrackedSections.Notice

/-!
# From lines to sections

`Document.ofLines` divides the lines of a file into sections. Its markers are indexed by section, the
sections that cannot be tracked are dropped, and so are both of two sections that overlap. What lies
between the others is plain. Every line that is no marker belongs to the section whose range holds
it.
-/

namespace TrackedSections

namespace Assembly

/-- A line of a file with its number. -/
abbrev Numbered := Int × Text

/-- The lines of a file with their numbers, of which the first is `start`. -/
def number (start : Int) : List Text → List Numbered
  | [] => []
  | line :: rest => (start, line) :: number (start + 1) rest

/-- A line and what it was read as. -/
structure ReadLine where
  number : Int
  text : Text
  reading : Marker.Reading

/-- The lines of a file with a comment prefix and what they are read as. -/
def readLines (commentPrefix : Text) (lines : List Text) : List ReadLine :=
  (number 1 lines).map fun (n, line) => ⟨n, line, Marker.read commentPrefix n line⟩

/-- The markers among the lines. -/
def markersOf (lines : List ReadLine) : List Marker := lines.filterMap (·.reading.marker?)

/-- The lines that are no markers. -/
def contentOf (lines : List ReadLine) : List Numbered :=
  (lines.filter (·.reading.marker?.isNone)).map fun line => (line.number, line.text)

/-- The first marker of the whole file of a kind. It is the only one of its kind that counts. -/
def property? (kind : MarkerKind) (markers : List Marker) : Option Marker :=
  markers.find? fun m => m.describesFile && m.kind = kind

/-- What there is to say about a marker of the whole file, given the permissions marker that counts.
-/
def propertyNotice? (permissions : Option Marker) (m : Marker) : Option Notice :=
  match m.kind with
  | .target => none
  | .permissions =>
    match m.argument with
    | some argument =>
      if permissions = some m ∧ Permissions.read? argument = none then
        some (.undecodedPermissions argument m.line)
      else none
    | none => none
  | kind => some (.ignoredMarker kind m.line)

/-- What there is to say about a line, given the permissions marker that counts. -/
def lineNotice? (permissions : Option Marker) (line : ReadLine) : Option Notice :=
  match line.reading with
  | .content => none
  | .faulty fault => some (.faultyMarker fault line.number)
  | .marker m => if m.describesFile then propertyNotice? permissions m else none

/-- The sections, in the order of their first lines, without both of each two neighbours of which the
second begins before the first ends. -/
def dropOverlapping : List Tracked → List Tracked × List Notice
  | [] => ([], [])
  | [s] => ([s], [])
  | s :: next :: rest =>
    if next.first < s.last then
      let (kept, notices) := dropOverlapping rest
      (kept, .overlap s next :: notices)
    else
      let (kept, notices) := dropOverlapping (next :: rest)
      (s :: kept, notices)

/-- The plain sections of the lines from `cursor` to `lastLine` that no tracked section holds. -/
def gaps (lastLine cursor : Int) : List Tracked → List Section
  | [] => if cursor ≤ lastLine then [.plain ⟨cursor, lastLine, []⟩] else []
  | s :: rest =>
    (if cursor < s.first then [.plain ⟨cursor, s.first - 1, []⟩] else []) ++
      gaps lastLine (s.last + 1) rest

/-- The sections of the lines up to `lastLine` in the order of their first lines: the tracked ones and
plain ones for the lines between them. -/
def fillGaps (lastLine : Int) (named : List Tracked) : List Section :=
  (gaps lastLine 1 named ++ named.map Section.tracked).mergeSort fun s t => s.first ≤ t.first

/-- The content lines in the range of a section, each closed. -/
def contentIn (s : Section) (content : List Numbered) : Text :=
  (content.filter fun (n, _) => s.contains n).flatMap fun (_, line) => Text.closeLine line

/-- Hands out the content lines to the sections in one pass over both and takes the digests. The lines
after the end of a section are left to the sections after it. -/
def distribute : List Numbered → List Section → List Section
  | _, [] => []
  | content, s :: rest =>
    let own := content.takeWhile fun (n, _) => n ≤ s.last
    let later := content.dropWhile fun (n, _) => n ≤ s.last
    (s.append (contentIn s own)).finalize :: distribute later rest

/-- The sections that the markers of an index describe, and why some names have none. -/
def build (index : MarkerIndex) : List Text → List Tracked × List Notice
  | [] => ([], [])
  | name :: rest =>
    let (sections, notices) := build index rest
    match Tracked.ofIndex index name with
    | .ok s => (s :: sections, notices)
    | .error fault => (sections, .unusableMarkers fault :: notices)

end Assembly

namespace Document

open Assembly

/-- `ofLines commentPrefix path finalNewline lines` is the document of a file with these lines, and
what there is to say about its markers. -/
def ofLines (commentPrefix : Text) (path : Option Path) (finalNewline : Bool) (lines : List Text) :
    Document × List Notice :=
  let read := readLines commentPrefix lines
  let markers := markersOf read
  let permissions := property? .permissions markers
  let permissionsArgument := permissions.bind (·.argument)
  let index := MarkerIndex.ofList (markers.filter (!·.describesFile))
  let valid := index.validate
  let (built, faults) := build valid valid.sections
  let (kept, overlaps) := dropOverlapping (built.mergeSort fun s t => s.first ≤ t.first)
  let d : Document :=
    { Document.empty commentPrefix path finalNewline with
      sections := distribute (contentOf read) (fillGaps lines.length kept)
      markers
      target := (property? .target markers).bind (·.argument)
      permissions := permissionsArgument.bind Permissions.read?
      permissionsArgument }
  (d, read.filterMap (lineNotice? permissions) ++
    index.defects.map (fun (name, defect) => .defectiveSection name defect) ++ faults ++ overlaps)

/-- `ofText commentPrefix path t` is the document of a file with text `t`. -/
def ofText (commentPrefix : Text) (path : Option Path) (t : Text) : Document × List Notice :=
  let (lines, finalNewline) := t.lines
  ofLines commentPrefix path finalNewline lines

end Document

end TrackedSections
