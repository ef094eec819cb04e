import TrackedSections.Inspection

/-!
# Changing the disk

An `Operation` may change the disk. What it changed and said before a failure stays. Every change is
one of the operations of `Disk` at one path, so what an operation touches can be read off its text.
-/

namespace TrackedSections

/-- The disk with the notices that were given so far. -/
structure Progress where
  disk : Disk
  notices : List Notice

/-- An operation that may change the disk, fail, and add to a list of notices. -/
abbrev Operation := ReaderT Host (ExceptT Failure (StateM Progress))

namespace Operation

/-- The report of an operation, and the disk after it. -/
def report {α : Type} (x : Operation α) (view : View) : Report α × Disk :=
  let (outcome, progress) := (x.run view.host).run.run ⟨view.disk, []⟩
  ((outcome, progress.notices), progress.disk)

/-- Gives a notice. -/
def tell (notice : Notice) : Operation Unit :=
  modify fun progress => { progress with notices := progress.notices ++ [notice] }

/-- Looks at the disk as it is now. -/
def look {α : Type} (x : Inspection α) : Operation α := do
  let progress ← get
  let (outcome, notices) := x.report ⟨← read, progress.disk⟩
  set ({ progress with notices := progress.notices ++ notices } : Progress)
  match outcome with
  | .ok a => pure a
  | .error failure => throw failure

/-- The outcome of an operation as a value. -/
def attempt {α : Type} (x : Operation α) : Operation (Except Failure α) :=
  tryCatch (Except.ok <$> x) fun failure => pure (.error failure)

/-- Puts a failure that comes from the disk into another one. -/
def explain {α : Type} (reason : Failure → Failure) (x : Operation α) : Operation α :=
  tryCatch x fun failure =>
    if failure.comesFromDisk then throw (reason failure) else throw failure

/-- Changes the disk at a path. -/
def change (action : Disk → Path → Except Refusal Disk) (p : Path) : Operation Unit := do
  if p.hasNull then throw .nullInPath
  let progress ← get
  match action progress.disk p with
  | .ok disk => set ({ progress with disk } : Progress)
  | .error refusal => throw (.refused refusal p)

/-- Writes a file. -/
def writeFile (p : Path) (content : Bytes) : Operation Unit := change (·.write · content) p

/-- Makes a directory, where there may be one already. -/
def makeDirectory (p : Path) : Operation Unit := do
  match ← attempt (change (·.makeDirectory ·) p) with
  | .ok () => pure ()
  | .error (.refused .notFound q) => throw (.refused .notFound q)
  | .error failure => if !(← look (Inspection.isDirectory p)) then throw failure

/-- Makes a directory and those above it that are missing. -/
def makeDirectories (p : Path) : Operation Unit := do
  match ← attempt (makeDirectory p) with
  | .error (.refused .notFound q) =>
    if _h : p.names = [] then throw (.refused .notFound q)
    else
      makeDirectories p.parent
      makeDirectory p
  | .error failure => throw failure
  | .ok () => pure ()
termination_by p.names.length
decreasing_by
  have := List.length_pos_iff.2 _h
  simp only [Path.parent, List.length_dropLast]
  omega

end Operation

end TrackedSections
