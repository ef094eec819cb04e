import TrackedSections.Text.Basic

/-!
# Files and directories

A `Node` is a file with its content and mode, or a directory with its entries. `Node.at?` looks up
the node at a list of names and `Node.put` replaces or adds one. Neither follows `..`: that is the
work of `Disk.locate`.
-/

namespace TrackedSections

/-- A file, or a directory of named entries. The mode holds the twelve permission bits. -/
inductive Node where
  | file (content : Bytes) (mode : Nat)
  | directory (mode : Nat) (entries : List (Text × Node))

namespace Node

/-- `isFile node` holds of files. -/
def isFile : Node → Bool
  | .file _ _ => true
  | .directory _ _ => false

/-- `isDirectory node` holds of directories. -/
def isDirectory : Node → Bool
  | .file _ _ => false
  | .directory _ _ => true

/-- `node.at? names` is the node that the names lead to from `node`. -/
def at? : Node → List Text → Option Node
  | node, [] => some node
  | .file _ _, _ :: _ => none
  | .directory _ entries, name :: rest =>
    match entries.lookup name with
    | none => none
    | some child => child.at? rest

/-- `setEntry name node entries` gives the entry `name` the node `node`, adding it at the end when
there is none. -/
def setEntry (name : Text) (node : Node) : List (Text × Node) → List (Text × Node)
  | [] => [(name, node)]
  | (other, old) :: rest =>
    if other = name then (other, node) :: rest else (other, old) :: setEntry name node rest

/-- `put new node names` puts `new` at the place that `names` lead to from `node`. Nothing changes
when the directory of that place is missing. -/
def put (new : Node) : Node → List Text → Node
  | _, [] => new
  | .file content mode, _ :: _ => .file content mode
  | .directory mode entries, name :: rest =>
    match entries.lookup name, rest with
    | none, [] => .directory mode (setEntry name new entries)
    | none, _ :: _ => .directory mode entries
    | some child, rest => .directory mode (setEntry name (put new child rest) entries)

/-- `erase node names` is `node` without what the names lead to. -/
def erase : Node → List Text → Node
  | node, [] => node
  | .file content mode, _ :: _ => .file content mode
  | .directory mode entries, [name] =>
    .directory mode (entries.filter fun (other, _) => other ≠ name)
  | .directory mode entries, name :: rest =>
    match entries.lookup name with
    | none => .directory mode entries
    | some child => .directory mode (setEntry name (erase child rest) entries)

/-- `withMode mode node` is `node` with the permission bits `mode`. -/
def withMode (mode : Nat) : Node → Node
  | .file content _ => .file content mode
  | .directory _ entries => .directory mode entries

end Node

end TrackedSections
