import TrackedSections.Yaml.Shape

/-!
# The graph of a YAML document

A node is a scalar, a sequence or a mapping, each with its tag. Nodes are numbered in the order in
which they begin, and a collection holds the numbers of its parts. An alias adds no node: it is the
number of the node with its anchor, be it a node that the alias lies in.
-/

namespace TrackedSections.Yaml

/-- The number of a node. -/
abbrev NodeId := Nat

/-- What a node consists of. -/
inductive NodeContent where
  | scalar (t : Text)
  | sequence (items : List NodeId)
  | mapping (entries : List (NodeId × NodeId))
  deriving DecidableEq, Repr

/-- A node of a document. -/
structure Node where
  tag : Text
  content : NodeContent
  deriving DecidableEq, Repr

/-- The node that an empty place stands for. -/
def Node.empty : Node := ⟨commonTag "null", .scalar []⟩

/-- The nodes of a document. -/
structure Graph where
  nodes : Array Node

namespace Graph

/-- The graph without a node. -/
def empty : Graph := ⟨#[]⟩

/-- The number of nodes. -/
def size (g : Graph) : Nat := g.nodes.size

/-- Adds a node, whose number is the size of the graph. -/
def add (g : Graph) (node : Node) : Graph := ⟨g.nodes.push node⟩

/-- Replaces a node. -/
def set (g : Graph) (id : NodeId) (node : Node) : Graph := ⟨g.nodes.setIfInBounds id node⟩

/-- The node with a number. There is no node with any other number, and an empty one stands in. -/
def node (g : Graph) (id : NodeId) : Node := g.nodes[id]?.getD .empty

/-- The tag of a node. -/
def tag (g : Graph) (id : NodeId) : Text := (g.node id).tag

/-- Whether a node has the tag of a common kind. -/
def hasTag (g : Graph) (kind : String) (id : NodeId) : Bool := g.tag id = commonTag kind

/-- The entries of a node if it is a mapping. -/
def entries? (g : Graph) (id : NodeId) : Option (List (NodeId × NodeId)) :=
  match (g.node id).content with
  | .mapping entries => some entries
  | _ => none

/-- Sets the entries of a mapping. -/
def setEntries (g : Graph) (id : NodeId) (entries : List (NodeId × NodeId)) : Graph :=
  g.set id { g.node id with content := .mapping entries }

/-- Sets the tag of a node. -/
def setTag (g : Graph) (id : NodeId) (tag : Text) : Graph := g.set id { g.node id with tag := tag }

/-- The number of entries of all mappings. -/
def entryCount (g : Graph) : Nat :=
  g.nodes.foldl (fun count node =>
    match node.content with
    | .mapping entries => count + entries.length
    | _ => count) 0

end Graph

end TrackedSections.Yaml
