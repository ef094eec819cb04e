import TrackedSections.Disk.Basic
import TrackedSections.Permissions
import TrackedSections.Section
import TrackedSections.Toml.Value
import TrackedSections.Yaml.Fault

/-!
# What can end an operation

A `Failure` is the reason why an operation did not finish. Most reasons concern one of the files that
are tracked: such a failure is `isExpected`, and an operation over many files records it and goes
on. The others end the whole run.
-/

namespace TrackedSections

/-- The kinds of failures. The first five concern files that the program handles. -/
inductive FailureKind where
  | config
  | section
  | sidecar
  | reading
  | writing
  | value
  | overflow
  | system
  | environment
  | decoding
  | key
  | index
  | attribute
  | type
  | recursion
  deriving DecidableEq, Repr

/-- The three tables of comment prefixes in a configuration. -/
inductive PrefixTable where
  | filenames
  | extensions
  | interpreters
  deriving DecidableEq, Repr

/-- The key of a table. -/
def PrefixTable.key : PrefixTable → Text
  | .filenames => "filenames".toList
  | .extensions => "extensions".toList
  | .interpreters => "interpreters".toList

/-- Why an operation ended. -/
inductive Failure where
  /-- The disk refused something at a path. -/
  | refused (refusal : Refusal) (path : Path)
  /-- A path has a null character. -/
  | nullInPath
  /-- A path has no last name. -/
  | noName (path : Path)
  /-- The home directory of an account is not known. -/
  | noHome
  /-- A numeral is too long. -/
  | numeral (fault : Text.NumeralFault)
  /-- A number stands for no permission bits. -/
  | permissions (fault : Permissions.Fault)
  /-- Octets that should be text are not. -/
  | undecodable (fault : Text.Utf8.Fault)
  /-- A scalar of a configuration has no value. -/
  | scalar (fault : Yaml.Fault)
  /-- A configuration is no YAML. -/
  | configMalformed (path : Path)
  /-- A configuration is no mapping. -/
  | configNotMapping (path : Path)
  /-- The comment prefixes of a configuration are no mapping. -/
  | prefixesNotMapping (path : Path)
  /-- One of the tables of comment prefixes is no mapping. -/
  | tableNotMapping (path : Path) (table : PrefixTable)
  /-- Markers describe no section. -/
  | section (fault : Tracked.Fault)
  /-- A sidecar cannot be read. -/
  | sidecarUnreadable (path : Path) (cause : Failure)
  /-- A sidecar is no TOML. -/
  | sidecarMalformed (path : Path)
  /-- A sidecar lacks one of the keys that it must have. -/
  | sidecarIncomplete (path : Path)
  /-- A tracked file cannot be read. -/
  | unreadable (path : Path) (cause : Failure)
  /-- A tracked file is no text. -/
  | notText (path : Path) (fault : Text.Utf8.Fault)
  /-- A tracked file cannot be written. -/
  | unwritten (path : Path) (cause : Failure)
  /-- A sidecar cannot be written. -/
  | sidecarUnwritten (path : Path) (cause : Failure)
  /-- A document has no path. -/
  | noPath
  /-- A document was read from a file that must not be written. -/
  | readOnly (path : Path)
  /-- The permission bits of a file cannot be set. -/
  | modeUnset (path : Path) (cause : Failure)
  /-- A number that stands for no permission bits belongs to a file. -/
  | invalidPermissions (path : Path) (written : Text)
  /-- A file cannot be created. -/
  | uncreated (path : Path) (cause : Failure)

namespace Failure

/-- The kind of a failure. -/
def kind : Failure → FailureKind
  | .refused _ _ => .system
  | .nullInPath | .noName _ | .numeral _ => .value
  | .noHome => .environment
  | .permissions fault => if fault.isFormal then .value else .overflow
  | .undecodable _ => .decoding
  | .scalar fault =>
    match fault with
    | .emptyNumber => .index
    | .notBoolean _ => .key
    | .notTime => .attribute
    | .hugeCodePoint | .tooLarge => .overflow
    | .timeOfMapping => .type
    | .endless => .recursion
    | .undecodable _ => .decoding
    | _ => .value
  | .configMalformed _ | .configNotMapping _ | .prefixesNotMapping _ | .tableNotMapping _ _ => .config
  | .section _ => .section
  | .sidecarUnreadable _ _ | .sidecarMalformed _ | .sidecarIncomplete _ => .sidecar
  | .unreadable _ _ | .notText _ _ => .reading
  | .unwritten _ _ | .sidecarUnwritten _ _ | .noPath | .readOnly _ | .modeUnset _ _
  | .invalidPermissions _ _ | .uncreated _ _ => .writing

/-- Whether a kind of failure concerns a file that the program handles. -/
def isExpectedKind : FailureKind → Bool
  | .config | .section | .sidecar | .reading | .writing => true
  | _ => false

/-- Whether a failure concerns a file that the program handles. -/
def isExpected (failure : Failure) : Bool := isExpectedKind failure.kind

/-- Whether a failure comes from the disk, directly or through a file that could not be read or
written. -/
def comesFromDisk (failure : Failure) : Bool :=
  failure.kind = .system || failure.kind = .reading || failure.kind = .writing

/-- The words for a failure. -/
def message : Failure → Text
  | .refused refusal path => refusal.message ++ ": ".toList ++ path.toText.quoted
  | .nullInPath => "embedded null byte".toList
  | .noName path => "PosixPath(".toList ++ path.toText.quoted ++ ") has an empty name".toList
  | .noHome => "Could not determine home directory.".toList
  | .numeral fault => fault.message
  | .permissions fault => fault.message
  | .undecodable fault => fault.message
  | .scalar fault => fault.message
  | .configMalformed path => "config at ".toList ++ path.toText ++ " is not valid YAML".toList
  | .configNotMapping path => "config at ".toList ++ path.toText ++ " is not a YAML mapping".toList
  | .prefixesNotMapping path => path.toText ++ ": comment_prefixes must be a mapping".toList
  | .tableNotMapping path table =>
    path.toText ++ ": comment_prefixes.".toList ++ table.key ++ " must be a mapping".toList
  | .section fault => fault.message
  | .sidecarUnreadable path cause =>
    "cannot read metafile ".toList ++ path.toText ++ ": ".toList ++ cause.message
  | .sidecarMalformed path => "metafile ".toList ++ path.toText ++ " is not valid TOML".toList
  | .sidecarIncomplete path =>
    "metafile ".toList ++ path.toText ++ " must define string keys 'hash' and 'parent'".toList
  | .unreadable path cause =>
    "cannot read ".toList ++ path.toText ++ ": ".toList ++ cause.message
  | .notText path fault => path.toText ++ " is not UTF-8 text: ".toList ++ fault.message
  | .unwritten path cause =>
    "could not write to file ".toList ++ path.toText ++ ": ".toList ++ cause.message
  | .sidecarUnwritten path cause =>
    "could not write metafile ".toList ++ path.toText ++ ": ".toList ++ cause.message
  | .noPath => "document has no path to write to".toList
  | .readOnly path => path.toText ++ " was opened read-only".toList
  | .modeUnset path cause =>
    "failed to set permissions on ".toList ++ path.toText ++ ": ".toList ++ cause.message
  | .invalidPermissions path written =>
    "invalid permissions ".toList ++ written ++ " for ".toList ++ path.toText
  | .uncreated path cause =>
    "could not create ".toList ++ path.toText ++ ": ".toList ++ cause.message

end Failure

end TrackedSections
