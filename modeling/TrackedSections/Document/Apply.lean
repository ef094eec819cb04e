import TrackedSections.Document.Save
import TrackedSections.Merge

/-!
# Applying a document to the file that it names

A document may name a target. If there is no such file, it is created with everything in the
document; otherwise it takes what it can. `Document.plan` decides what is to be done and changes
nothing, so it is all that a dry run does; `Plan.carryOut` does it.
-/

namespace TrackedSections

/-- What became of the target of a document. -/
inductive Outcome where
  | created
  | updated
  | unchanged
  | skipped
  deriving DecidableEq, Repr

/-- The word for an outcome. -/
def Outcome.word : Outcome → Text
  | .created => "created".toList
  | .updated => "updated".toList
  | .unchanged => "unchanged".toList
  | .skipped => "skipped".toList

/-- What is to be done to the target of a document. -/
inductive Plan where
  /-- Nothing, since the document is not fit to be applied. -/
  | skip
  /-- Create the target. -/
  | create (target : Path)
  /-- Nothing, since the target takes nothing. -/
  | keep
  /-- Write the target, which took something. -/
  | update (path : Path) (target : Document)

/-- The outcome of a plan that is carried out. -/
def Plan.outcome : Plan → Outcome
  | .skip => .skipped
  | .create _ => .created
  | .keep => .unchanged
  | .update _ _ => .updated

namespace Document

/-- Decides about a target that does not exist. -/
def planCreation (source : Document) (target : Path) : Inspection Plan := do
  if source.hasSidecar && source.isModified then
    Inspection.tell (.skippedModified source.name)
    pure .skip
  else if !source.isManaged then
    Inspection.tell (.unmanagedSource source.name)
    pure .skip
  else pure (.create target)

/-- Decides about a target that exists. -/
def planUpdate (source : Document) (path : Path) (config : Config) : Inspection Plan := do
  let commentPrefix := if source.hasSidecar then none else some source.commentPrefix
  let target ← load path.toText commentPrefix config
  let merged := target.apply source
  Inspection.tellAll merged.notices
  if !merged.isChanged then pure .keep
  else if !target.hasSidecar && merged.target.write = target.write then pure .keep
  else pure (.update path merged.target)

/-- Decides what is to be done to the target of a document. -/
def plan (source : Document) (config : Config) : Inspection Plan := do
  match source.target with
  | none =>
    Inspection.tell (.noTarget source.name)
    pure .skip
  | some written =>
    let path ← Inspection.expand written
    if ← Inspection.isFile path then source.planUpdate path config
    else source.planCreation path

/-- The document that is created at a target. It names no target of its own. -/
def createdFrom (source : Document) (target : Path) : Document :=
  { source with path := some target, target := none, sidecar := none, isReadOnly := false }

/-- Creates a target with the sections of a source. -/
def createWithSections (source : Document) (target : Path) : Operation Unit := do
  let _ ← (source.createdFrom target).save

/-- Creates a target with the content of a source that has the sidecar `s`. The sidecar of the target
names the source. -/
def createWithSidecar (source : Document) (s : Sidecar) (target : Path) : Operation Unit := do
  Operation.explain (.unwritten target) (Operation.writeFile target s.content)
  let sidecarPath ← Operation.look (Inspection.ofExcept (Sidecar.pathFor target))
  let origin ← match source.path with
    | none => pure s.source
    | some path => do pure (some (← Operation.look (Inspection.resolve path)).toText)
  let created : Sidecar :=
    { Sidecar.new sidecarPath target.name s.content with
      source := origin
      permissions := s.permissions }
  created.accept.save
  match s.permissions with
  | some permissions => Operation.setPermissions target permissions
  | none => pure ()

end Document

namespace Plan

/-- Does what was decided for a source. -/
def carryOut (source : Document) : Plan → Operation Unit
  | .skip | .keep => pure ()
  | .create target => do
    let _ ← Operation.createFile target.toText
    match source.sidecar with
    | some s => source.createWithSidecar s target
    | none => source.createWithSections target
    Operation.tell (.appliedToCreate source.name target)
  | .update path target => do
    let _ ← target.save
    Operation.tell (.appliedToFile source.name path)

/-- What a dry run says of a plan: an update is announced, a creation is not. -/
def announce (source : Document) : Plan → Inspection Unit
  | .update path _ => Inspection.tell (.appliedToFile source.name path)
  | .skip | .keep | .create _ => pure ()

end Plan

namespace Operation

/-- Applies a document to its target. -/
def apply (source : Document) (config : Config) : Operation Outcome := do
  let plan ← look (source.plan config)
  plan.carryOut source
  pure plan.outcome

end Operation

namespace Inspection

/-- Tells what applying a document to its target would do. -/
def dryApply (source : Document) (config : Config) : Inspection Outcome := do
  let plan ← source.plan config
  plan.announce source
  pure plan.outcome

end Inspection

end TrackedSections
