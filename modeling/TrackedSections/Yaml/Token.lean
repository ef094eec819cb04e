import TrackedSections.Yaml.Cursor

/-!
# Tokens of a YAML document

A token is an indicator, a property of a node or a scalar. Indentation shows in the tokens that begin
and end block collections, so that a reader of tokens needs no columns.
-/

namespace TrackedSections.Yaml

/-- A directive before a document. -/
inductive Directive where
  | version (major : Nat)
  | tag (handle tagStart : Text)
  | reserved
  deriving DecidableEq, Repr

/-- A token. -/
inductive Token where
  | directive (d : Directive)
  | documentStart
  | documentEnd
  | blockSequenceStart
  | blockMappingStart
  | blockEnd
  | flowSequenceStart
  | flowSequenceEnd
  | flowMappingStart
  | flowMappingEnd
  | blockEntry
  | flowEntry
  | key
  | value
  | alias (name : Text)
  | anchor (name : Text)
  | tag (handle : Option Text) (rest : Text)
  | scalar (content : Text) (isPlain : Bool)
  deriving DecidableEq, Repr

end TrackedSections.Yaml
