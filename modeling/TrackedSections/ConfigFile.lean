import TrackedSections.CommentPrefix
import TrackedSections.Inspection
import TrackedSections.Yaml.Reader

/-!
# Reading the configuration

A configuration is a YAML mapping that may hold a default comment prefix and tables of comment
prefixes by file name, extension and interpreter. Every key and value of a table counts as text. A
missing file, or a file with nothing in it, says nothing.
-/

namespace TrackedSections

namespace Config

/-- A value as text, unless it holds a number that is too long to write. -/
def textOf (contents : Yaml.Contents) (value : Yaml.Value) : Except Failure Text :=
  (contents.toText value).mapError .numeral

/-- Sets the value of a key in a table. -/
def insertEntry (key value : Text) : Prefixes → Prefixes
  | [] => [(key, value)]
  | (other, old) :: rest =>
    if other = key then (other, value) :: rest else (other, old) :: insertEntry key value rest

/-- The entries of a table as text. Of two entries with one key the later counts. -/
def tableOfEntries (contents : Yaml.Contents) (entries : Yaml.Entries) : Except Failure Prefixes :=
  entries.foldlM (fun table (key, value) => do
    let key ← textOf contents key
    let value ← textOf contents value
    pure (insertEntry key value table)) []

/-- The table of comment prefixes at a key of the configuration at a path. -/
def tableAt (origin : Path) (contents : Yaml.Contents) (table : PrefixTable)
    (entries : Yaml.Entries) : Except Failure Prefixes :=
  match Yaml.Value.lookup? table.key entries with
  | none | some .null => .ok []
  | some value =>
    match contents.entries? value with
    | some entries => tableOfEntries contents entries
    | none => .error (.tableNotMapping origin table)

/-- The entries under the comment prefixes of a configuration. -/
def prefixEntries (origin : Path) (contents : Yaml.Contents) (entries : Yaml.Entries) :
    Except Failure Yaml.Entries :=
  match Yaml.Value.lookup? "comment_prefixes".toList entries with
  | none => .ok []
  | some value =>
    if contents.isEmpty value then .ok []
    else
      match contents.entries? value with
      | some inner => .ok inner
      | none => .error (.prefixesNotMapping origin)

/-- The default comment prefix of a configuration. -/
def defaultOf (contents : Yaml.Contents) (entries : Yaml.Entries) : Except Failure Text :=
  match Yaml.Value.lookup? "default_comment_prefix".toList entries with
  | none => .ok CommentPrefix.fallback
  | some value =>
    if contents.isEmpty value then .ok CommentPrefix.fallback else textOf contents value

/-- The configuration that a document at a path stands for. -/
def ofContents (origin : Path) (contents : Yaml.Contents) : Except Failure Config :=
  match contents.root, contents.entries? contents.root with
  | .null, _ => .ok { empty with origin := some origin }
  | _, some entries => do
    let inner ← prefixEntries origin contents entries
    let filenames ← tableAt origin contents .filenames inner
    let extensions ← tableAt origin contents .extensions inner
    let interpreters ← tableAt origin contents .interpreters inner
    let defaultPrefix ← defaultOf contents entries
    pure ⟨filenames, extensions, interpreters, defaultPrefix, some origin⟩
  | _, none => .error (.configNotMapping origin)

/-- The failure that a fault of the configuration at a path amounts to. -/
def failureOf (origin : Path) : Yaml.Fault → Failure
  | .malformed => .configMalformed origin
  | .undecodable fault => .undecodable fault
  | fault => .scalar fault

/-- The configuration with given octets at a path. -/
def ofOctets (origin : Path) (octets : Bytes) : Except Failure Config := do
  let contents ← (Yaml.read (.ofOctets octets)).mapError (failureOf origin)
  ofContents origin contents

/-- The configuration written at a path, or at the usual place when none is given. -/
def load (written : Option Text) : Inspection Config := do
  let path ← match written with
    | none | some [] => do Inspection.ofExcept (← read).host.configPath
    | some t => pure (Path.ofText t)
  if ← Inspection.isFile path then
    Inspection.ofExcept (ofOctets path (← Inspection.readFile path))
  else pure empty

end Config

end TrackedSections
