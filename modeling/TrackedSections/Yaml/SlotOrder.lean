import TrackedSections.Yaml.Value

/-!
# The order of numbers in a set

A set keeps its items in a table whose size is a power of two, more than twice their number. A number
goes to the slot that its residue modulo a prime names, or to the next free one of the ten slots
from there, or on to another place that the higher digits of the residue choose. The set shows its
items in the order of the slots.
-/

namespace TrackedSections.Yaml

namespace SlotOrder

/-- The prime of the residues. -/
def modulus : Nat := 0x1fffffffffffffff

/-- The residue of a whole number times a power of two. Two to the sixty-first is one. -/
def residueOf (sign : Int) (n : Nat) (exponent : Int) : Int :=
  let residue := sign * (n * Nat.pow 2 (Int.emod exponent 61).toNat % modulus : Nat)
  if residue = -1 then -2 else residue

/-- The residue of a number. -/
def residue? : Value → Option Int
  | .boolean b => some (Value.truthNumber b)
  | .integer n => some (residueOf n.sign n.natAbs 0)
  | .real x =>
    if x.isInf then some (if x < 0 then -314159 else 314159)
    else
      let parts := Text.Double.partsOf x
      some (residueOf (if x < 0 then -1 else 1) parts.mantissa parts.exponent)
  | _ => none

/-- The size of the table for some items. -/
def tableSize (count : Nat) : Nat := if count < 5 then 8 else Nat.pow 2 (Nat.log2 (2 * count) + 1)

/-- The table before any item is in it. -/
def emptyTable (count : Nat) : Array (Option Value) :=
  (List.replicate (tableSize count) none).toArray

/-- The first free one of `count` slots from a slot on. -/
def firstFree? (table : Array (Option Value)) (slot : Nat) : (count : Nat) → Option Nat
  | 0 => none
  | count + 1 =>
    match table[slot]? with
    | some none => some slot
    | _ => firstFree? table (slot + 1) count

/-- The slot for an item: the search goes on from `slot` with what is left of its residue. At most `fuel`
places are tried. -/
def freeSlot (table : Array (Option Value)) : (fuel : Nat) → (slot left : Nat) → Nat
  | 0, slot, _ => slot
  | fuel + 1, slot, left =>
    let width := if slot + 9 < table.size then 10 else 1
    match firstFree? table slot width with
    | some slot => slot
    | none =>
      let left := left / 32
      freeSlot table fuel ((slot * 5 + 1 + left) % table.size) left

/-- Puts an item with a residue into the table. -/
def place (table : Array (Option Value)) (item : Value) (residue : Int) : Array (Option Value) :=
  let word := (Int.emod residue (Nat.pow 2 64 : Nat)).toNat
  let slot := freeSlot table (table.size + 16) (word % table.size) word
  table.setIfInBounds slot (some item)

end SlotOrder

/-- The items of a set in the order in which it shows them, if they are all numbers. Others keep their
order. -/
def slotOrder (items : List Value) : List Value :=
  match items.mapM SlotOrder.residue? with
  | none => items
  | some residues =>
    let table := (items.zip residues).foldl
      (fun table (item, residue) => SlotOrder.place table item residue)
      (SlotOrder.emptyTable items.length)
    table.toList.filterMap id

end TrackedSections.Yaml
