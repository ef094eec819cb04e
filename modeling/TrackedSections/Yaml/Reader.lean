import TrackedSections.Yaml.Contents
import TrackedSections.Yaml.Grammar
import TrackedSections.Yaml.MergeKey
import TrackedSections.Yaml.ScalarValue
import TrackedSections.Yaml.SlotOrder

/-!
# Reading YAML

`Yaml.read` gives what a document holds. The value of a scalar is found when a collection needs it. A
collection is first of all an empty one: what it holds is found later, one collection after another
in the order in which they were met. So the fault that is told is the one that is met first in this
order.
-/

namespace TrackedSections.Yaml

/-- The kinds of collections. -/
inductive CollectionKind where
  | sequence
  | mapping
  | set
  | pairs
  deriving DecidableEq, Repr

/-- The kinds of collections by their tags. -/
def collectionKinds : List (Text × CollectionKind) :=
  [(commonTag "seq", .sequence), (commonTag "map", .mapping), (commonTag "set", .set),
   (commonTag "omap", .pairs), (commonTag "pairs", .pairs)]

/-- What the reader of values holds: the nodes, the values that are found by the numbers of their nodes,
the collections, and those of them that are still to be filled, the last one first. -/
structure ValueReader where
  graph : Graph
  values : Array (Option Value)
  collections : Array Collection
  pending : List (CollectionKind × NodeId)

namespace ValueReader

/-- The reader before any value is found. -/
def start (g : Graph) : ValueReader :=
  ⟨g, (List.replicate g.size none).toArray, (List.replicate g.size (.sequence [])).toArray, []⟩

end ValueReader

/-- A step of the reader. -/
abbrev Valuation := StateT ValueReader (Except Fault)

namespace Valuation

/-- The text of a scalar. A mapping with a default key stands for its value there. At most `fuel`
defaults are followed. -/
def scalarText (g : Graph) : (fuel : Nat) → NodeId → Except Fault Text
  | 0, _ => .error .endless
  | fuel + 1, id =>
    match (g.node id).content with
    | .scalar t => .ok t
    | .sequence _ => .error .malformed
    | .mapping entries =>
      match entries.find? fun (key, _) => g.hasTag "value" key with
      | some (_, value) => scalarText g fuel value
      | none => .error .malformed

/-- Notes the value of a node. -/
def note (id : NodeId) (value : Value) : Valuation Value := do
  modify fun s => { s with values := s.values.setIfInBounds id (some value) }
  pure value

/-- Notes what a collection holds. -/
def fill (id : NodeId) (collection : Collection) : Valuation Unit :=
  modify fun s => { s with collections := s.collections.setIfInBounds id collection }

/-- The value of a node. Its tag has a rule. -/
def valueOf (id : NodeId) : Valuation Value := do
  let s ← get
  match s.values[id]? with
  | some (some value) => pure value
  | _ =>
    let node := s.graph.node id
    match collectionKinds.lookup node.tag, scalarKinds.lookup node.tag with
    | some kind, _ =>
      modify fun s => { s with pending := (kind, id) :: s.pending }
      note id (.collection id)
    | none, some kind =>
      let content ← scalarText s.graph (s.graph.size + 1) id
      if kind = .time && (s.graph.entries? id).isSome then throw .timeOfMapping
      note id (← scalarValue id kind content)
    | none, none => throw .malformed

/-- The entries of a mapping. -/
def entriesOf (id : NodeId) : Valuation Entries := do
  let g := (← get).graph
  if (g.entries? id).isNone then throw .malformed
  let g ← g.mergeInto (g.entryCount + 1) id []
  modify fun s => { s with graph := g }
  ((g.entries? id).getD []).foldlM (fun entries (key, value) => do
    let key ← valueOf key
    if !key.isKey then throw .malformed
    pure (Value.insert key (← valueOf value) entries)) []

/-- The parts of a sequence. -/
def partsOf (id : NodeId) : Valuation (List NodeId) := do
  match ((← get).graph.node id).content with
  | .sequence items => pure items
  | _ => throw .malformed

/-- The pair that a mapping with one entry stands for. -/
def pairOf (id : NodeId) : Valuation (Value × Value) := do
  match (← get).graph.entries? id with
  | some [(first, second)] =>
    let first ← valueOf first
    pure (first, ← valueOf second)
  | _ => throw .malformed

/-- Finds what a collection holds. -/
def fillOne (kind : CollectionKind) (id : NodeId) : Valuation Unit := do
  match kind with
  | .sequence => fill id (.sequence (← (← partsOf id).mapM valueOf))
  | .mapping => fill id (.mapping (← entriesOf id))
  | .set => fill id (.set (slotOrder ((← entriesOf id).map (·.1))))
  | .pairs => fill id (.pairs (← (← partsOf id).mapM pairOf))

/-- Fills collections until none is left to be filled, at most `fuel` rounds of them. -/
def fillAll : (fuel : Nat) → Valuation Unit
  | 0 => pure ()
  | fuel + 1 => do
    match (← get).pending.reverse with
    | [] => pure ()
    | round =>
      modify fun s => { s with pending := [] }
      round.forM fun (kind, id) => fillOne kind id
      fillAll fuel

end Valuation

/-- What the node with a number holds. -/
def Graph.contents (g : Graph) (root : NodeId) : Except Fault Contents := do
  let reading : Valuation Value := do
    let value ← Valuation.valueOf root
    Valuation.fillAll (g.size + 1)
    pure value
  let (value, s) ← reading.run (.start g)
  pure ⟨value, s.collections⟩

/-- `read source` is what a document holds, null if there is none. -/
def read (source : Source) : Except Fault Contents := do
  match ← Graph.read source with
  | (none, _) => pure .empty
  | (some root, g) => g.contents root

end TrackedSections.Yaml
