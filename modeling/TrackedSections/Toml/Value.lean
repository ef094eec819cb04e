import TrackedSections.Text.Numeral

/-!
# Values of a sidecar file

A sidecar is a TOML document: a table of keys with values. Only texts and integers matter for
tracking, so real numbers and points in time are read but not kept.
-/

namespace TrackedSections.Toml

/-- A value in a TOML document. -/
inductive Value where
  | text (t : Text)
  | integer (n : Int)
  | boolean (b : Bool)
  | real
  | moment
  | array (items : List Value)
  | table (entries : List (Text × Value))

/-- Keys with their values in the order of their first occurrence. -/
abbrev Table := List (Text × Value)

/-- A dotted key. -/
abbrev Key := List Text

/-- The text that a value is, if it is one. -/
def Value.text? : Value → Option Text
  | .text t => some t
  | _ => none

/-- The integer that a value is, if it is one. -/
def Value.integer? : Value → Option Int
  | .integer n => some n
  | _ => none

/-- Arrays and tables have parts of their own, which later lines cannot extend. -/
def Value.isComposite : Value → Bool
  | .array _ | .table _ => true
  | _ => false

/-- Why a document cannot be read. -/
inductive Fault where
  /-- It breaks the grammar, or defines a key twice. -/
  | malformed
  /-- A numeral is too long. -/
  | numeral (fault : Text.NumeralFault)
  deriving DecidableEq, Repr

end TrackedSections.Toml
