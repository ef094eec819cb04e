import TrackedSections.Yaml.Value

/-!
# What a YAML document holds

`Contents` are the value of a document and the contents of its collections. `Contents.toText` is the
text that a value counts as where text is wanted, and `Contents.display` shows it inside another
one. A collection that lies inside itself is shown as an ellipsis there. An integer with too many
digits has no text.
-/

namespace TrackedSections.Yaml

/-- The value of a document and what its collections hold. -/
structure Contents where
  root : Value
  collections : Array Collection

namespace Contents

/-- The contents of an empty document. -/
def empty : Contents := ⟨.null, #[]⟩

/-- What the collection with a number holds. -/
def collection (c : Contents) (id : NodeId) : Collection := c.collections[id]?.getD (.sequence [])

/-- The entries of a value if it is a mapping. -/
def entries? (c : Contents) : Value → Option Entries
  | .collection id =>
    match c.collection id with
    | .mapping entries => some entries
    | _ => none
  | _ => none

/-- A value is empty when it is null, false, zero, or has no characters or items. -/
def isEmpty (c : Contents) : Value → Bool
  | .null => true
  | .boolean b => !b
  | .integer n => n = 0
  | .real x => x == 0
  | .text t => t.isEmpty
  | .octets bs => bs.isEmpty
  | .notNumber _ | .date .. | .moment _ => false
  | .collection id =>
    match c.collection id with
    | .sequence items | .set items => items.isEmpty
    | .mapping entries | .pairs entries => entries.isEmpty

/-- Items with commas between them. -/
def withCommas (items : List Text) : Text := Text.joinWith ", ".toList items

/-- Shows a collection, given how to show its parts. -/
def displayCollection (show? : Value → Except Text.NumeralFault Text) :
    Collection → Except Text.NumeralFault Text
  | .sequence items => do
    pure ('[' :: withCommas (← items.mapM show?) ++ [']'])
  | .set [] => pure "set()".toList
  | .set items => do
    pure ('\x7b' :: withCommas (← items.mapM show?) ++ ['\x7d'])
  | .mapping entries => do
    let shown ← entries.mapM fun (key, value) => do
      let key ← show? key
      pure (key ++ ": ".toList ++ (← show? value))
    pure ('\x7b' :: withCommas shown ++ ['\x7d'])
  | .pairs entries => do
    let shown ← entries.mapM fun (first, second) => do
      let first ← show? first
      pure ('(' :: first ++ ", ".toList ++ (← show? second) ++ [')'])
    pure ('[' :: withCommas shown ++ [']'])

/-- What is shown of a collection inside itself. -/
def ellipsis : Collection → Text
  | .sequence _ | .pairs _ => "[...]".toList
  | .mapping _ | .set _ => "\x7b...\x7d".toList

/-- A value as it shows inside the collections `around`, at most `fuel` collections deep. -/
def display (c : Contents) : (fuel : Nat) → (around : List NodeId) → Value →
    Except Text.NumeralFault Text
  | _, _, .null => pure "None".toList
  | _, _, .boolean b => pure (if b then "True".toList else "False".toList)
  | _, _, .integer n => Text.writeInt n
  | _, _, .real x => pure (Text.ofDouble x)
  | _, _, .notNumber _ => pure "nan".toList
  | _, _, .text t => pure t.quoted
  | _, _, .date year month day => pure (dateDisplay year month day)
  | _, _, .moment m => pure m.display
  | _, _, .octets bs => pure (octetsDisplay bs)
  | fuel, around, .collection id =>
    if id ∈ around then pure (ellipsis (c.collection id))
    else
      match fuel with
      | 0 => pure []
      | fuel + 1 => displayCollection (display c fuel (id :: around)) (c.collection id)

/-- A value as text. -/
def toText (c : Contents) : Value → Except Text.NumeralFault Text
  | .text t => pure t
  | .date year month day => pure (dateText year month day)
  | .moment m => pure m.text
  | value => c.display (c.collections.size + 1) [] value

end Contents

end TrackedSections.Yaml
