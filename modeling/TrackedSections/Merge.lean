import TrackedSections.Document.Assembly

/-!
# Applying one document to another

A document takes content from a source without losing local work. Between documents with sidecars the
whole content is taken, unless either was edited. Between documents with comments, all sections are
taken at once when the target has no edits and every section of its own in the source; otherwise
sections are taken one by one by name. A section that was edited is neither taken nor replaced.
-/

namespace TrackedSections

/-- The outcome of applying something to a target: the target afterwards, whether it changed, and what
there is to say. -/
structure Merged where
  target : Document
  isChanged : Bool
  notices : List Notice

namespace Merged

/-- Nothing was taken. -/
def none (target : Document) (notices : List Notice) : Merged := ⟨target, false, notices⟩

end Merged

namespace Tracked

/-- `s.take candidate` is the section `s` with the content of `candidate`. It keeps its place, and its
source if the candidate has none; its last line follows the new content. -/
def take (s candidate : Tracked) : Tracked :=
  let taken : Tracked :=
    { s with
      accepted := candidate.accepted
      source := candidate.source.or s.source
      content := candidate.content
      current := candidate.current }
  { taken with last := taken.first + taken.lineCount - 1 }

end Tracked

namespace Document

/-- What became of a section that should be replaced. -/
inductive Replacement where
  /-- There is no section of that name. -/
  | absent
  /-- The section was edited. -/
  | kept (s : Tracked)
  /-- The section is replaced in this list. -/
  | done (sections : List Section)

/-- Puts a section before those of a replacement. -/
def Replacement.cons (s : Section) : Replacement → Replacement
  | .absent => .absent
  | .kept t => .kept t
  | .done sections => .done (s :: sections)

/-- Replaces the first tracked section with the name of a candidate. The sections after it move by as
many lines as it grows. -/
def replace (candidate : Tracked) : List Section → Replacement
  | [] => .absent
  | .plain s :: rest => (replace candidate rest).cons (.plain s)
  | .tracked s :: rest =>
    if s.name = candidate.name then
      if s.isModified then .kept s
      else
        let taken := s.take candidate
        .done (.tracked taken :: rest.map (·.shift (taken.last - s.last)))
    else (replace candidate rest).cons (.tracked s)

/-- `target.applySection candidate` takes one section. -/
def applySection (target : Document) (candidate : Tracked) : Merged :=
  if target.hasSidecar then .none target [.sectionToSidecar]
  else if candidate.isModified then .none target [.modifiedSection candidate.name]
  else
    match replace candidate target.sections with
    | .absent => .none target [.noTargetSection target.name candidate.name]
    | .kept s => .none target [.keptSection s.name target.name]
    | .done sections => ⟨{ target with sections }, true, []⟩

/-- Takes sections one after another. The count is that of the sections that were taken. -/
def applyEach (target : Document) : List Tracked → Document × Nat × List Notice
  | [] => (target, 0, [])
  | candidate :: rest =>
    let first := target.applySection candidate
    let (target, count, notices) := applyEach first.target rest
    (target, (if first.isChanged then 1 else 0) + count, first.notices ++ notices)

/-- Why a source cannot be applied to a target at all. -/
def obstacle? (target source : Document) : Option Notice :=
  if target.hasSidecar then
    if source.hasSidecar then none else some (.commentsToSidecar source.name target.name)
  else if !target.isManaged then some (.unmanagedTarget target.name)
  else if source.hasSidecar then some (.sidecarToComments source.name target.name)
  else if !source.isManaged then some (.unmanagedSource source.name)
  else none

/-- Takes the whole content of a document with a sidecar. -/
def applySidecar (target source : Document) (mine theirs : Sidecar) : Merged :=
  if mine.isModified then .none target [.modifiedTarget target.name]
  else if theirs.isModified then .none target [.modifiedSource source.name]
  else if mine.accepted = theirs.accepted then .none target [.upToDate target.name]
  else
    let taken := { mine with content := theirs.content, accepted := theirs.accepted }
    ⟨{ target with sidecar := some taken }, true, [.applied source.name target.name]⟩

/-- Whether all sections of a source may be taken at once. -/
def takesAll (target source : Document) : Bool :=
  !target.isModified && target.names.all source.names.contains

/-- Takes the sections of a source between documents with comments. -/
def applySections (target source : Document) : Merged :=
  if target.takesAll source then
    ⟨{ target with sections := source.sections, markers := source.markers }, true,
      [.appliedAll source.name target.name]⟩
  else
    let (merged, count, notices) := target.applyEach source.tracked
    let last :=
      if count = 0 then Notice.appliedNone source.name target.name merged.isModified
      else .appliedSome count source.name target.name
    ⟨merged, count ≠ 0, notices ++ [last]⟩

/-- `target.apply source` takes what it can from a source. -/
def apply (target source : Document) : Merged :=
  match target.obstacle? source with
  | some notice => .none target [notice]
  | none =>
    match target.sidecar, source.sidecar with
    | some mine, some theirs => target.applySidecar source mine theirs
    | _, _ => target.applySections source

/-- Takes the sections of some names. No section answers to an absent name. -/
def applyNames (target source : Document) : List (Option Text) → Merged
  | [] => .none target []
  | name :: rest =>
    let first : Merged :=
      match name.bind source.get? with
      | none => .none target [.noSourceSection source.name name]
      | some candidate => target.applySection candidate
    let later := applyNames first.target source rest
    ⟨later.target, first.isChanged || later.isChanged, first.notices ++ later.notices⟩

/-- `target.applyNamed source names` takes the sections of some names from a source. -/
def applyNamed (target source : Document) (names : List (Option Text)) : Merged :=
  match target.obstacle? source with
  | some notice => .none target [notice]
  | none => target.applyNames source names

end Document

end TrackedSections
