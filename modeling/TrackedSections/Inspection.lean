import TrackedSections.Host
import TrackedSections.Notice

/-!
# Looking without changing

An `Inspection` is an operation that sees the disk and cannot change it. It ends with a value or a
`Failure`, and what it has to say is kept in either case.
-/

namespace TrackedSections

/-- What an operation sees. -/
structure View where
  host : Host
  disk : Disk

/-- An operation that sees the disk, may fail, and adds to a list of notices. -/
abbrev Inspection := ReaderT View (ExceptT Failure (StateM (List Notice)))

/-- The outcome of an operation with the notices that it gave. -/
abbrev Report (α : Type) := Except Failure α × List Notice

namespace Path

/-- No disk holds a path with a null character. -/
def hasNull (p : Path) : Bool := p.names.any (·.contains '\x00')

end Path

namespace Inspection

/-- The report of an inspection. -/
def report {α : Type} (x : Inspection α) (view : View) : Report α := (x.run view).run.run []

/-- Gives a notice. -/
def tell (notice : Notice) : Inspection Unit := modify (· ++ [notice])

/-- Gives notices. -/
def tellAll (notices : List Notice) : Inspection Unit := modify (· ++ notices)

/-- The value of a computation that may fail. -/
def ofExcept {α : Type} : Except Failure α → Inspection α
  | .ok a => pure a
  | .error failure => throw failure

/-- The outcome of an inspection as a value. -/
def attempt {α : Type} (x : Inspection α) : Inspection (Except Failure α) :=
  tryCatch (Except.ok <$> x) fun failure => pure (.error failure)

/-- The answer of the disk to a question about a path. -/
def ask {α : Type} (question : Disk → Path → Except Refusal α) (p : Path) : Inspection α := do
  match question (← read).disk p with
  | .ok a => pure a
  | .error refusal => throw (.refused refusal p)

/-- The path written `t`. -/
def expand (t : Text) : Inspection Path := do ofExcept ((← read).host.expand t)

/-- Whether a path leads to a regular file. -/
def isFile (p : Path) : Inspection Bool := if p.hasNull then pure false else ask Disk.isFile p

/-- Whether a path leads to a directory. -/
def isDirectory (p : Path) : Inspection Bool :=
  if p.hasNull then pure false else ask Disk.isDirectory p

/-- The content of the file at a path. -/
def readFile (p : Path) : Inspection Bytes :=
  if p.hasNull then throw .nullInPath else ask Disk.read p

/-- `absolute p` is `p` seen from the root. -/
def absolute (p : Path) : Inspection Path := do
  pure (Path.absolute ⟨.slash, (← read).disk.workdir⟩ p)

/-- `resolve p` is the absolute path without `..` that `p` leads to. -/
def resolve (p : Path) : Inspection Path := do
  if p.hasNull then throw .nullInPath
  pure (Path.resolve ⟨.slash, (← read).disk.workdir⟩ p)

end Inspection

end TrackedSections
