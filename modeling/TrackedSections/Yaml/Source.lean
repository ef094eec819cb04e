import TrackedSections.Text.Stream
import TrackedSections.Yaml.Fault

/-!
# The text of a YAML document

A document is read in stretches, the first of which is twice as long as the others. Control characters
may not occur in it. A fault, be it in the octets or in the characters, belongs to the stretch in
which it lies, and what comes before that stretch is read without it.
-/

namespace TrackedSections.Yaml

/-- A character that may occur in a document. -/
def isAllowed (c : Char) : Bool :=
  c = '\t' || c = '\n' || c = '\r' || c = '\u0085' || (' ' ≤ c && c ≤ '~') ||
    ('\u00a0' ≤ c && c ≤ '\ufffd') || 0x10000 ≤ c.toNat

/-- The text of a document up to a fault. -/
structure Source where
  text : Text
  /-- Why the document cannot be read any further, if it does not end. -/
  stop : Option Fault

namespace Source

/-- The number of characters in a stretch. -/
def stretchLength : Nat := 4096

/-- Puts stretches together up to the first with a character that may not occur. -/
def ofStretches (stop : Option Fault) : List Text → Source
  | [] => ⟨[], stop⟩
  | t :: rest =>
    if t.all isAllowed then
      let source := ofStretches stop rest
      ⟨t ++ source.text, source.stop⟩
    else ⟨[], some .malformed⟩

/-- The document that a file with some octets holds. -/
def ofOctets (octets : Bytes) : Source :=
  match Text.stretches stretchLength octets with
  | (first :: second :: rest, fault) =>
    ofStretches (fault.map .undecodable) ((first ++ second) :: rest)
  | (_, some fault) => ⟨[], some (.undecodable fault)⟩
  | (ts, none) => ofStretches none ts

end Source

end TrackedSections.Yaml
