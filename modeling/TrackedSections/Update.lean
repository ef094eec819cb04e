import TrackedSections.Merge
import TrackedSections.SourceCache

/-!
# Pulling from sources

A target pulls from the sources that it names: each of its sections from the section of the same name
in the source of that section, or all of its content from the source of its sidecar. A source that
cannot be read is noted and passed over. What was pulled before some other failure stays pulled.
-/

namespace TrackedSections

/-- A target while it pulls, with the sources read so far. -/
structure Pull where
  target : Document
  cache : SourceCache
  isChanged : Bool
  notices : List Notice

/-- An operation that changes a target and sees the disk. -/
abbrev Pulling := ReaderT View (ExceptT Failure (StateM Pull))

namespace Pulling

/-- Gives a notice. -/
def tell (notice : Notice) : Pulling Unit :=
  modify fun pull => { pull with notices := pull.notices ++ [notice] }

/-- Looks at the disk. -/
def look {α : Type} (x : Inspection α) : Pulling (Except Failure α) := do
  let (outcome, notices) := x.report (← read)
  modify fun pull => { pull with notices := pull.notices ++ notices }
  pure outcome

/-- Takes the outcome of applying something to the target. -/
def merge (merged : Merged) : Pulling Unit :=
  modify fun pull =>
    { pull with
      target := merged.target
      isChanged := pull.isChanged || merged.isChanged
      notices := pull.notices ++ merged.notices }

/-- The path of a source that a document names. It is seen from the directory of the document. -/
def sourcePath (written : Text) (declaredIn : Document) : Inspection Path := do
  let path ← Inspection.expand written
  match declaredIn.path with
  | some place => pure (place.parent.join path)
  | none => pure path

/-- The source that a document names. If it cannot be read, `excuse` gives the notice. -/
def source? (written : Text) (excuse : Failure → Notice) : Pulling (Option Document) := do
  let pull ← get
  match ← look (do pull.cache.get (← sourcePath written pull.target).toText) with
  | .ok (d, cache) =>
    modify fun pull => { pull with cache }
    pure (some d)
  | .error failure =>
    if failure.isExpected then
      tell (excuse failure)
      pure none
    else throw failure

/-- Pulls all of the content of a target with the sidecar `s`. -/
def pullSidecar (s : Sidecar) : Pulling Unit := do
  let target := (← get).target
  if s.isModified then tell (.skippedModified target.name)
  else
    match s.source with
    | none | some [] => tell (.noSource target.name)
    | some written =>
      match ← source? written (.sidecarSourceFailed written) with
      | none => pure ()
      | some d => merge (target.apply d)

/-- Pulls the section `s` of a target from a document. -/
def pullFrom (s : Tracked) (d : Document) : Pulling Unit := do
  match d.get? s.name with
  | none => tell (.noSourceSection d.name (some s.name))
  | some candidate =>
    if candidate.content ≠ s.content ∨ candidate.accepted ≠ s.accepted then
      merge ((← get).target.applySection candidate)

/-- Whether a section is among the wanted ones. Without wanted ones, all are. -/
def isWanted (wanted : List (Option Text)) (s : Tracked) : Bool :=
  wanted.isEmpty || wanted.contains (some s.name)

/-- Pulls the section `s` of a target, if it names a source. -/
def pullSection (wanted : List (Option Text)) (s : Tracked) : Pulling Unit := do
  match s.source with
  | none => pure ()
  | some written =>
    if isWanted wanted s then
      match ← source? written (.sectionSourceFailed written) with
      | none => pure ()
      | some d => pullFrom s d

/-- Pulls everything that is wanted. -/
def pullAll (wanted : List (Option Text)) : Pulling Unit := do
  let target := (← get).target
  match target.sidecar with
  | some s => pullSidecar s
  | none => target.tracked.forM (pullSection wanted)

/-- Takes what is wanted from one source. -/
def takeFrom (wanted : List (Option Text)) (source : Document) : Pulling Unit := do
  let target := (← get).target
  if !wanted.isEmpty && !target.hasSidecar then merge (target.applyNamed source wanted)
  else merge (target.apply source)

end Pulling

namespace Document

/-- `target.update cache wanted source view` is the target after it took the wanted sections from a
given source, or pulled them from the sources that it names. With a failure comes what was done
before it. -/
def update (target : Document) (cache : SourceCache) (wanted : List (Option Text))
    (source : Option Document) (view : View) : Except Failure Unit × Pull :=
  let pulling := match source with
    | some d => Pulling.takeFrom wanted d
    | none => Pulling.pullAll wanted
  (pulling.run view).run.run ⟨target, cache, false, []⟩

end Document

end TrackedSections
