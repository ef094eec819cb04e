import TrackedSections.Marker.Basic

/-!
# Markers by section

A `MarkerIndex` groups the markers of a file by section, sections in the order of their first marker
and the markers of each in the order they came. A section can be tracked when it has a begin, an end
and a hash marker and no two markers of one kind; `MarkerIndex.validate` drops the others and says
what is wrong with each. The markers of the file itself are exempt.
-/

namespace TrackedSections

/-- Sections with their markers, in order of first occurrence. -/
structure MarkerIndex where
  groups : List (Text × List Marker)
  deriving DecidableEq, Repr

namespace MarkerIndex

/-- The index without markers. -/
def empty : MarkerIndex := ⟨[]⟩

/-- Adds a marker to the groups of an index. -/
def pushInto (m : Marker) : List (Text × List Marker) → List (Text × List Marker)
  | [] => [(m.scope, [m])]
  | (name, markers) :: rest =>
    if name = m.scope then (name, markers ++ [m]) :: rest
    else (name, markers) :: pushInto m rest

/-- `index.push m` is the index with the marker `m` added at the end of its section. -/
def push (index : MarkerIndex) (m : Marker) : MarkerIndex := ⟨pushInto m index.groups⟩

/-- The index of a list of markers. -/
def ofList (markers : List Marker) : MarkerIndex := markers.foldl push empty

/-- The names in the index, that of the whole file included. -/
def size (index : MarkerIndex) : Nat := index.groups.length

/-- The names of the sections in the index. -/
def sections (index : MarkerIndex) : List Text :=
  (index.groups.map (·.1)).filter (· ≠ Marker.wholeFile)

/-- The markers of a section. -/
def markers (index : MarkerIndex) (name : Text) : List Marker := (index.groups.lookup name).getD []

/-- Whether a name has markers. -/
def contains (index : MarkerIndex) (name : Text) : Bool := (index.groups.lookup name).isSome

/-- The first marker of a kind in a section. -/
def get? (index : MarkerIndex) (name : Text) (kind : MarkerKind) : Option Marker :=
  (index.markers name).find? (·.kind = kind)

/-- `index.erase name` is the index without the markers of a section. -/
def erase (index : MarkerIndex) (name : Text) : MarkerIndex :=
  ⟨index.groups.filter (·.1 ≠ name)⟩

/-- The kinds that every tracked section has, in the order of their keywords. -/
def requiredKinds : List MarkerKind := [.start, .stop, .hash]

/-- Why a section cannot be tracked. -/
inductive Defect where
  /-- Two markers of one kind. -/
  | repeatedKind
  /-- Some required kinds do not occur. -/
  | missing (kinds : List MarkerKind)
  deriving DecidableEq, Repr

/-- The words for what is wrong with a section. -/
def Defect.message (name : Text) : Defect → Text
  | .repeatedKind => "section ".toList ++ name.quoted ++ " has duplicate markers, ignoring it".toList
  | .missing kinds =>
    "section ".toList ++ name.quoted ++ " is incomplete (missing ".toList ++
      Text.joinWith ", ".toList (kinds.map (·.keyword)) ++ "), ignoring it".toList

/-- `defect? kinds` is what is wrong with a section that has markers of these kinds. -/
def defect? (kinds : List MarkerKind) : Option Defect :=
  if ¬ kinds.Nodup then some .repeatedKind
  else
    match requiredKinds.filter (· ∉ kinds) with
    | [] => none
    | absent => some (.missing absent)

/-- What is wrong with the group of a name. The whole file has no defects. -/
def groupDefect? (group : Text × List Marker) : Option Defect :=
  if group.1 = Marker.wholeFile then none else defect? (group.2.map (·.kind))

/-- The sections that cannot be tracked, each with what is wrong with it. -/
def defects (index : MarkerIndex) : List (Text × Defect) :=
  index.groups.filterMap fun group => (groupDefect? group).map (group.1, ·)

/-- The index of the sections that can be tracked, and of the file itself. -/
def validate (index : MarkerIndex) : MarkerIndex :=
  ⟨index.groups.filter fun group => (groupDefect? group).isNone⟩

end MarkerIndex

end TrackedSections
