import TrackedSections.Document.Load

/-!
# Documents that were read before

A `SourceCache` keeps each document that was read as a source under its absolute path, so that
everything that one run takes from a source comes from one reading of it. A failed reading leaves no
trace.
-/

namespace TrackedSections

/-- The documents that were read with a comment prefix and a configuration. -/
structure SourceCache where
  commentPrefix : Option Text
  config : Config
  documents : List (Path × Document)

namespace SourceCache

/-- The cache without documents. -/
def empty (commentPrefix : Option Text) (config : Config) : SourceCache :=
  ⟨commentPrefix, config, []⟩

/-- The number of documents. -/
def size (cache : SourceCache) : Nat := cache.documents.length

/-- The absolute path that a written path leads to. -/
def key (written : Text) : Inspection Path := do
  Inspection.absolute (← Inspection.expand written)

/-- Whether the document at a path was read before. -/
def contains (cache : SourceCache) (written : Text) : Inspection Bool := do
  pure (cache.documents.lookup (← key written)).isSome

/-- The document at a path, and the cache that has it. -/
def get (cache : SourceCache) (written : Text) : Inspection (Document × SourceCache) := do
  let path ← key written
  match cache.documents.lookup path with
  | some d => pure (d, cache)
  | none =>
    let d ← Document.load path.toText cache.commentPrefix cache.config
    pure (d, { cache with documents := cache.documents ++ [(path, d)] })

end SourceCache

end TrackedSections
