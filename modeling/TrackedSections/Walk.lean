import TrackedSections.Operation
import TrackedSections.Sidecar

/-!
# The files below a directory

A walk visits the files below a directory, those of each directory in the order of their names and
before those of the directories in it. Sidecars are left out, and so is everything in a directory
`.git` below the first. `Inspection.walk` lists the files at once, and `Inspection.walkFrom` those below
a directory named by a text. `Operation.visitFiles` looks into a directory only when its turn comes, so
it meets the files that were made there in the meantime.
-/

namespace TrackedSections

namespace Text

/-- Whether `t` comes before `u` or is equal to it, character by character. -/
def notAfter : Text → Text → Bool
  | [], _ => true
  | _ :: _, [] => false
  | c :: t, d :: u => if c = d then notAfter t u else c < d

end Text

namespace Walk

/-- The name of the directories that are left out. -/
def skippedDirectory : Text := ".git".toList

/-- The entry `name` of the directory at `path`. -/
def entryPath (path : Path) (name : Text) : Path := path.join ⟨.none, [name]⟩

/-- The entries of a directory in the order of their names. -/
def byName {α : Type} (entries : List (Text × α)) : List (Text × α) :=
  entries.mergeSort fun a b => Text.notAfter a.1 b.1

/-- The files that a walk visits in the directory at a path, and the directories that it enters. -/
def listing (path : Path) : Node → List Path × List Path
  | .file _ _ => ([], [])
  | .directory _ entries =>
    let files := ((byName entries).filter (·.2.isFile)).map fun entry => entryPath path entry.1
    let directories := (byName entries).filter fun entry =>
      entry.2.isDirectory && entry.1 ≠ skippedDirectory
    (files.filter (!Sidecar.isPath ·), directories.map fun entry => entryPath path entry.1)

/-- The files that one entry of a directory adds to a walk, and whether it is a directory. -/
structure Branch where
  isDirectory : Bool
  files : List Path

/-- The files of a walk from the branches of a directory. -/
def gather (branches : List (Text × Branch)) : List Path :=
  let sorted := byName branches
  (sorted.filter (!·.2.isDirectory)).flatMap (·.2.files) ++
    (sorted.filter (·.2.isDirectory)).flatMap (·.2.files)

mutual

/-- The branch of the entry `name` of the directory at a path. -/
def branchOf (path : Path) (name : Text) : Node → Branch
  | .file _ _ =>
    let file := entryPath path name
    ⟨false, if Sidecar.isPath file then [] else [file]⟩
  | .directory _ entries =>
    ⟨true, if name = skippedDirectory then []
      else gather (branchesOf (entryPath path name) entries)⟩

/-- The branches of the entries of the directory at a path. -/
def branchesOf (path : Path) : List (Text × Node) → List (Text × Branch)
  | [] => []
  | (name, node) :: rest => (name, branchOf path name node) :: branchesOf path rest

end

/-- The files below a node at a path. -/
def files (path : Path) : Node → List Path
  | .file _ _ => []
  | .directory _ entries => gather (branchesOf path entries)

end Walk

namespace Inspection

/-- The files below the directory at a path. There are none if it is no directory. -/
def walk (path : Path) : Inspection (List Path) := do
  if path.hasNull then throw .nullInPath
  match (← read).disk.node path with
  | .ok node => pure (Walk.files path node)
  | .error _ => pure []

/-- The files below the directory that is written `t`. The disk is asked for it in these words, so an
empty text and one that is too long lead to no directory. -/
def walkFrom (t : Text) : Inspection (List Path) := do
  let paths ← walk (Path.ofText t)
  pure (if t = [] ∨ Disk.pathLimit ≤ t.encode.length then [] else paths)

/-- The files and the directories in the directory at a path. -/
def listing (path : Path) : Inspection (List Path × List Path) := do
  if path.hasNull then throw .nullInPath
  match (← read).disk.node path with
  | .ok node => pure (Walk.listing path node)
  | .error _ => pure ([], [])

end Inspection

namespace Operation

/-- Visits the files in a directory and in those at most `depth` levels below it. -/
def visitFilesTo {α : Type} (visit : α → Path → Operation α) : Nat → α → Path → Operation α
  | 0, a, _ => pure a
  | depth + 1, a, path => do
    let (files, directories) ← look (Inspection.listing path)
    let a ← files.foldlM visit a
    directories.foldlM (visitFilesTo visit depth) a

/-- Visits the files below a directory. No path is so long that it leads further down than the
number of its octets. -/
def visitFiles {α : Type} (visit : α → Path → Operation α) (a : α) (path : Path) : Operation α :=
  visitFilesTo visit Disk.pathLimit a path

end Operation

end TrackedSections
