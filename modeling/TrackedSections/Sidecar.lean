import TrackedSections.Failure
import TrackedSections.Toml.Reader

/-!
# Sidecars

A file that cannot hold markers is tracked as a whole by a sidecar next to it. The sidecar is a TOML
document with the accepted digest of the file, the name of the file, and perhaps a target, a source
and permissions. `Sidecar.write` gives the document and `Sidecar.read` reads it for a file with a
given content.
-/

namespace TrackedSections

/-- What is known of a tracked file and its sidecar. `accepted` is the digest in the sidecar; it differs
from the digest of the content when the file was edited, and `isModified` says whether it did at the
last look. -/
structure Sidecar where
  path : Path
  accepted : Text
  fileName : Text
  content : Bytes
  target : Option Text
  source : Option Text
  permissions : Option Int
  version : Text
  formatVersion : Int
  isModified : Bool
  deriving DecidableEq, Repr

namespace Sidecar

/-- What the name of a sidecar adds to that of its file. -/
def extension : Text := ".imosid.toml".toList

/-- The version that new sidecars name. -/
def currentVersion : Text := "0.1.0".toList

/-- The version of the format that new sidecars name. -/
def currentFormat : Int := 0

/-- The path of the sidecar of a file, which must have a name. -/
def pathFor (file : Path) : Except Failure Path :=
  if file.names = [] then .error (.noName file)
  else .ok ⟨file.anchor, file.names.dropLast ++ [file.name ++ extension]⟩

/-- Whether a path names a sidecar. -/
def isPath (p : Path) : Bool := Text.endsWith p.toText extension

/-- The digest of the content of the file. -/
def current (s : Sidecar) : Text := Digest.ofBytes s.content

/-- The path of the file. -/
def filePath (s : Sidecar) : Path := s.path.parent.join (Path.ofText s.fileName)

/-- The sidecar after a look at the content. -/
def finalize (s : Sidecar) : Sidecar := { s with isModified := s.accepted ≠ s.current }

/-- The sidecar after the content is accepted. -/
def accept (s : Sidecar) : Sidecar := { s with accepted := s.current, isModified := false }

/-- Whether accepting the content changes the sidecar. -/
def change (s : Sidecar) : Change := if s.accepted = s.current then .unchanged else .changed

/-- A new sidecar for a file, still without a digest. -/
def new (path : Path) (fileName : Text) (content : Bytes) : Sidecar :=
  ⟨path, [], fileName, content, none, none, none, currentVersion, currentFormat, false⟩

/-- The sidecar at a path with the entries of a table, for a file with a given content. -/
def ofTable (path : Path) (content : Bytes) (table : Toml.Table) : Except Failure Sidecar :=
  let textAt (key : String) : Option Text := (table.lookup key.toList).bind (·.text?)
  let integerAt (key : String) : Option Int := (table.lookup key.toList).bind (·.integer?)
  match textAt "hash", textAt "parent" with
  | some accepted, some fileName =>
    .ok (finalize ⟨path, accepted, fileName, content, textAt "target", textAt "source",
      integerAt "permissions", (textAt "imosidversion").getD currentVersion,
      (integerAt "syntaxversion").getD currentFormat, false⟩)
  | _, _ => .error (.sidecarIncomplete path)

/-- Reads the octets of a sidecar at a path, for a file with a given content. -/
def read (path : Path) (content octets : Bytes) : Except Failure Sidecar :=
  match Text.decode octets with
  | .error fault => .error (.sidecarUnreadable path (.undecodable fault))
  | .ok t =>
    match Toml.read t.normalizeNewlines with
    | .error .malformed => .error (.sidecarMalformed path)
    | .error (.numeral fault) => .error (.numeral fault)
    | .ok table => ofTable path content table

/-- An entry with an integer. -/
def integerEntry (key : String) (n : Int) : Except Failure Text :=
  match Text.writeInt n with
  | .ok written => .ok (Toml.writeEntry key.toList written)
  | .error fault => .error (.numeral fault)

/-- An entry with a text. -/
def textEntry (key : String) (t : Text) : Text := Toml.writeEntry key.toList (Toml.writeText t)

/-- An entry with a text that may be absent. -/
def optionalEntry (key : String) : Option Text → Text
  | none => []
  | some t => textEntry key t

/-- The document that the sidecar is kept as. -/
def write (s : Sidecar) : Except Failure Text := do
  let permissions ← match s.permissions with
    | none => pure []
    | some n => integerEntry "permissions" n
  let formatVersion ← integerEntry "syntaxversion" s.formatVersion
  pure (textEntry "hash" s.accepted ++ textEntry "parent" s.fileName ++
    optionalEntry "target" s.target ++ optionalEntry "source" s.source ++ permissions ++
    textEntry "imosidversion" s.version ++ formatVersion)

/-- A few words about the file. -/
def report (s : Sidecar) : Text :=
  "metafile hash: ".toList ++ s.accepted ++ '\n' ::
    (if s.isModified then "modified".toList else "unmodified".toList)

end Sidecar

end TrackedSections
