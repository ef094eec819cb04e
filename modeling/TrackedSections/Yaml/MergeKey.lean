import TrackedSections.Yaml.Fault
import TrackedSections.Yaml.Graph

/-!
# Merge keys

A merge key of a mapping puts the entries of other mappings before its own. Its value is a mapping or a
sequence of mappings, whose own merge keys are resolved first; of a sequence the last mapping comes
first. The default key counts as text from then on. A mapping may be merged into itself: its merge
keys that are met already are gone by then.
-/

namespace TrackedSections.Yaml

namespace Graph

/-- Cuts entries at the first merge key: the entries before it, its value and the entries after it. -/
def splitAtMerge? (g : Graph) :
    List (NodeId × NodeId) → Option (List (NodeId × NodeId) × NodeId × List (NodeId × NodeId))
  | [] => none
  | entry :: rest =>
    if g.hasTag "merge" entry.1 then some ([], entry.2, rest)
    else (splitAtMerge? g rest).map fun (before, value, after) => (entry :: before, value, after)

/-- Makes the default keys among some entries text. -/
def settleDefaults (g : Graph) (entries : List (NodeId × NodeId)) : Graph :=
  entries.foldl
    (fun g (key, _) => if g.hasTag "value" key then g.setTag key (commonTag "str") else g) g

/-- Resolves the merge keys of the mapping with a number, into which the entries `merged` are merged
already. At most `fuel` merge keys are met on the way to one. -/
def mergeInto : (fuel : Nat) → (id : NodeId) → (merged : List (NodeId × NodeId)) → Graph →
    Except Fault Graph
  | 0, _, _, _ => .error .malformed
  | fuel + 1, id, merged, g => do
    let entries := (g.entries? id).getD []
    match g.splitAtMerge? entries with
    | none => pure ((g.settleDefaults entries).setEntries id (merged ++ entries))
    | some (before, value, after) =>
      let g := g.setEntries id (before ++ after)
      match (g.node value).content with
      | .scalar _ => throw .malformed
      | .mapping _ =>
        let g ← mergeInto fuel value [] g
        mergeInto fuel id (merged ++ (g.entries? value).getD []) g
      | .sequence items =>
        let (parts, g) ← items.foldlM (fun (parts, g) item => do
          if (g.entries? item).isNone then throw .malformed
          let g ← mergeInto fuel item [] g
          pure ((g.entries? item).getD [] :: parts, g)) ([], g)
        mergeInto fuel id (merged ++ parts.flatten) g

end Graph

end TrackedSections.Yaml
