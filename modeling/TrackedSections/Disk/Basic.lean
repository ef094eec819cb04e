import TrackedSections.Disk.Node
import TrackedSections.Path
import TrackedSections.Text.Quoted
import TrackedSections.Text.Utf8

/-!
# The disk

A `Disk` is a tree of directories and files seen from a working directory. Every operation takes a
path, walks it name by name and either succeeds or is refused for one reason. There are no links, so
`..` leads to the directory above; a name is only looked up in a directory that exists.
-/

namespace TrackedSections

/-- Why the disk refuses an operation. -/
inductive Refusal where
  | notFound
  | permissionDenied
  | alreadyExists
  | notDirectory
  | isDirectory
  | nameTooLong
  deriving DecidableEq, Repr

/-- The number and the words by which a refusal is known. -/
def Refusal.message : Refusal → Text
  | .notFound => "[Errno 2] No such file or directory".toList
  | .permissionDenied => "[Errno 13] Permission denied".toList
  | .alreadyExists => "[Errno 17] File exists".toList
  | .notDirectory => "[Errno 20] Not a directory".toList
  | .isDirectory => "[Errno 21] Is a directory".toList
  | .nameTooLong => "[Errno 36] File name too long".toList

/-- A tree of files seen from the working directory with names `workdir`. -/
structure Disk where
  tree : Node
  workdir : List Text

namespace Disk

/-- The most octets that a name may have. -/
def nameLimit : Nat := 255

/-- The least number of octets that a path may not have. -/
def pathLimit : Nat := 4096

/-- The permission bits of a new file. -/
def newFileMode : Nat := 0o644

/-- The permission bits of a new directory. -/
def newDirectoryMode : Nat := 0o755

/-- `follow tree place names` is the place that `names` lead to from `place`. -/
def follow (tree : Node) : List Text → List Text → Except Refusal (List Text)
  | place, [] => .ok place
  | place, name :: rest =>
    match tree.at? place with
    | none => .error .notFound
    | some (.file _ _) => .error .notDirectory
    | some (.directory _ _) =>
      if name = ['.', '.'] then follow tree place.dropLast rest
      else if nameLimit < name.encode.length then .error .nameTooLong
      else if (tree.at? (place ++ [name])).isSome then follow tree (place ++ [name]) rest
      else .error .notFound

/-- `d.locate p` is the place of the file or directory at `p`. -/
def locate (d : Disk) (p : Path) : Except Refusal (List Text) :=
  if pathLimit ≤ p.toText.encode.length then .error .nameTooLong
  else follow d.tree (if p.isAbsolute then [] else d.workdir) p.names

/-- `d.node p` is the file or directory at `p`. -/
def node (d : Disk) (p : Path) : Except Refusal Node :=
  match d.locate p with
  | .error refusal => .error refusal
  | .ok place =>
    match d.tree.at? place with
    | none => .error .notFound
    | some node => .ok node

/-- What a path leads to when something may be created there: a place that is taken by a node, or a
free place in an existing directory. -/
inductive Slot where
  | taken (place : List Text) (node : Node)
  | free (place : List Text)

/-- `d.slot p` is what creating at `p` would meet. -/
def slot (d : Disk) (p : Path) : Except Refusal Slot :=
  match d.locate p with
  | .ok place =>
    match d.tree.at? place with
    | none => .error .notFound
    | some node => .ok (.taken place node)
  | .error .notFound => (d.locate p.parent).map fun place => .free (place ++ [p.name])
  | .error refusal => .error refusal

/-- `d.put place node` is the disk with `node` at `place`. -/
def put (d : Disk) (place : List Text) (node : Node) : Disk :=
  { d with tree := Node.put node d.tree place }

/-- Whether `p` leads to a regular file. A missing file is an answer, a name that is too long is a
refusal. -/
def isFile (d : Disk) (p : Path) : Except Refusal Bool :=
  match d.node p with
  | .ok node => .ok node.isFile
  | .error .nameTooLong => .error .nameTooLong
  | .error _ => .ok false

/-- Whether `p` leads to a directory. -/
def isDirectory (d : Disk) (p : Path) : Except Refusal Bool :=
  match d.node p with
  | .ok node => .ok node.isDirectory
  | .error .nameTooLong => .error .nameTooLong
  | .error _ => .ok false

/-- The content of the file at `p`. -/
def read (d : Disk) (p : Path) : Except Refusal Bytes :=
  match d.node p with
  | .error refusal => .error refusal
  | .ok (.directory _ _) => .error .isDirectory
  | .ok (.file content _) => .ok content

/-- The disk after `content` is written to `p`. A file that exists keeps its mode. -/
def write (d : Disk) (p : Path) (content : Bytes) : Except Refusal Disk :=
  match d.slot p with
  | .error refusal => .error refusal
  | .ok (.taken _ (.directory _ _)) => .error .isDirectory
  | .ok (.taken place (.file _ mode)) => .ok (d.put place (.file content mode))
  | .ok (.free place) => .ok (d.put place (.file content newFileMode))

/-- The disk after making sure that something exists at `p`, an empty file if nothing did. -/
def touch (d : Disk) (p : Path) : Except Refusal Disk :=
  match d.slot p with
  | .error refusal => .error refusal
  | .ok (.taken _ _) => .ok d
  | .ok (.free place) => .ok (d.put place (.file [] newFileMode))

/-- The disk after a directory is made at `p`, where there must be nothing. -/
def makeDirectory (d : Disk) (p : Path) : Except Refusal Disk :=
  match d.slot p with
  | .error refusal => .error refusal
  | .ok (.taken _ _) => .error .alreadyExists
  | .ok (.free place) => .ok (d.put place (.directory newDirectoryMode []))

/-- The disk after the permission bits of what is at `p` are set. -/
def changeMode (d : Disk) (p : Path) (mode : Nat) : Except Refusal Disk :=
  match d.slot p with
  | .error refusal => .error refusal
  | .ok (.taken place node) => .ok (d.put place (node.withMode mode))
  | .ok (.free _) => .error .notFound

/-- The disk without the file at `p`. -/
def remove (d : Disk) (p : Path) : Except Refusal Disk :=
  match d.slot p with
  | .error refusal => .error refusal
  | .ok (.taken _ (.directory _ _)) => .error .isDirectory
  | .ok (.taken place _) => .ok { d with tree := d.tree.erase place }
  | .ok (.free _) => .error .notFound

end Disk

end TrackedSections
