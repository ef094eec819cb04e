import TrackedSections.Document.Apply
import TrackedSections.Walk

/-!
# Whole directories

An operation on a directory handles the files below it one after another. A failure that concerns one
file is recorded with its path, and the next file follows.
-/

namespace TrackedSections

/-- A file that could not be handled, and why. -/
structure Mishap where
  path : Path
  failure : Failure

/-- What became of the files of a directory whose documents name targets. -/
structure ApplySummary where
  created : List Path
  updated : List Path
  skipped : List Path
  mishaps : List Mishap

namespace ApplySummary

/-- The summary of no file. -/
def empty : ApplySummary := ⟨[], [], [], []⟩

/-- Adds a file with the outcome for its target. -/
def add (summary : ApplySummary) (path : Path) : Outcome → ApplySummary
  | .created => { summary with created := summary.created ++ [path] }
  | .updated => { summary with updated := summary.updated ++ [path] }
  | .unchanged | .skipped => { summary with skipped := summary.skipped ++ [path] }

/-- Adds what handling one file came to. Nothing is added for a file that names no target, and only
failures that concern files are recorded. -/
def record (summary : ApplySummary) (path : Path) :
    Except Failure (Option Outcome) → Except Failure ApplySummary
  | .ok none => .ok summary
  | .ok (some outcome) => .ok (summary.add path outcome)
  | .error failure =>
    if failure.isExpected then .ok { summary with mishaps := summary.mishaps ++ [⟨path, failure⟩] }
    else .error failure

end ApplySummary

/-- What a check found in a directory. -/
structure CheckSummary where
  checked : Nat
  modified : List Path
  unmanaged : List Path
  mishaps : List Mishap

namespace CheckSummary

/-- The summary of no file. -/
def empty : CheckSummary := ⟨0, [], [], []⟩

/-- Adds the document of a file. -/
def add (summary : CheckSummary) (path : Path) (d : Document) : CheckSummary :=
  { summary with
    checked := summary.checked + 1
    modified := if d.isModified then summary.modified ++ [path] else summary.modified
    unmanaged := if d.isManaged then summary.unmanaged else summary.unmanaged ++ [path] }

/-- Adds what reading one file came to. Only failures that concern files are recorded. -/
def record (summary : CheckSummary) (path : Path) :
    Except Failure Document → Except Failure CheckSummary
  | .ok d => .ok (summary.add path d)
  | .error failure =>
    if failure.isExpected then .ok { summary with mishaps := summary.mishaps ++ [⟨path, failure⟩] }
    else .error failure

end CheckSummary

namespace Inspection

/-- Applies the document at a path as a dry run, if it names a target. -/
def dryApplyPath (commentPrefix : Option Text) (config : Config) (path : Path) :
    Inspection (Option Outcome) := do
  let source ← Document.load path.toText commentPrefix config
  if source.target.isNone then pure none else some <$> dryApply source config

/-- Applies every document below a directory as a dry run. -/
def dryApplyTree (root : Text) (commentPrefix : Option Text) (config : Config) :
    Inspection ApplySummary := do
  let paths ← walk (← expand root)
  paths.foldlM (fun summary path => do
    let result ← attempt (dryApplyPath commentPrefix config path)
    ofExcept (summary.record path result)) .empty

/-- Looks for modified and unmanaged files below a directory. -/
def checkTree (root : Text) (commentPrefix : Option Text) (config : Config) :
    Inspection CheckSummary := do
  let paths ← walk (← expand root)
  paths.foldlM (fun summary path => do
    let result ← attempt (Document.load path.toText commentPrefix config)
    ofExcept (summary.record path result)) .empty

end Inspection

namespace Operation

/-- Applies the document at a path, if it names a target. -/
def applyPath (commentPrefix : Option Text) (config : Config) (path : Path) :
    Operation (Option Outcome) := do
  let source ← look (Document.load path.toText commentPrefix config)
  if source.target.isNone then pure none else some <$> apply source config

/-- Applies the document at a path and adds what that came to. -/
def applyAndRecord (commentPrefix : Option Text) (config : Config) (summary : ApplySummary)
    (path : Path) : Operation ApplySummary := do
  let result ← attempt (applyPath commentPrefix config path)
  look (Inspection.ofExcept (summary.record path result))

/-- Applies every document below a directory. A file that is created there before its turn comes has
its turn too. -/
def applyTree (root : Text) (commentPrefix : Option Text) (config : Config) :
    Operation ApplySummary := do
  visitFiles (applyAndRecord commentPrefix config) .empty (← look (Inspection.expand root))

end Operation

end TrackedSections
