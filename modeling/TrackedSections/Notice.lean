import TrackedSections.Failure
import TrackedSections.Marker.Reader

/-!
# What an operation has to say

A `Notice` is something that an operation tells its user besides its result. Each has a level: what
is lost or refused is a warning, what was done is information, and the rest is detail.
-/

namespace TrackedSections

/-- How important a notice is. -/
inductive Level where
  | debug
  | info
  | warning
  deriving DecidableEq, Repr

/-- The name of a level. -/
def Level.name : Level → Text
  | .debug => "debug".toList
  | .info => "info".toList
  | .warning => "warning".toList

/-- Something that an operation tells. Documents appear under their names. -/
inductive Notice where
  /-- A line looks like a marker and is none. -/
  | faultyMarker (fault : Marker.Fault) (line : Int)
  /-- The markers of a section are not complete. -/
  | defectiveSection (name : Text) (defect : MarkerIndex.Defect)
  /-- The markers of a name describe no section. -/
  | unusableMarkers (fault : Tracked.Fault)
  /-- Two sections overlap. -/
  | overlap (one other : Tracked)
  /-- The argument of a permissions marker is no number. -/
  | undecodedPermissions (argument : Text) (line : Int)
  /-- A marker of the whole file has no meaning there. -/
  | ignoredMarker (kind : MarkerKind) (line : Int)
  /-- A file may be read but not written. -/
  | readOnly (path : Path)
  /-- The permission bits of a file were set. -/
  | modeSet (path : Path) (mode : Nat)
  /-- A sidecar was made. -/
  | sidecarCreated (path : Path)
  /-- A file with comments cannot be applied to a file with a sidecar. -/
  | commentsToSidecar (source target : Text)
  /-- A file with a sidecar cannot be applied to a file with comments. -/
  | sidecarToComments (source target : Text)
  /-- Nothing can be applied to a file without tracked sections. -/
  | unmanagedTarget (target : Text)
  /-- A file without tracked sections cannot be applied. -/
  | unmanagedSource (source : Text)
  /-- Sections cannot be applied to a file with a sidecar. -/
  | sectionToSidecar
  /-- A section that was edited cannot be applied. -/
  | modifiedSection (name : Text)
  /-- A section with local changes is kept. -/
  | keptSection (name target : Text)
  /-- A document has no section of a name; the missing target is a detail, the source is not. -/
  | noTargetSection (target name : Text)
  | noSourceSection (source : Text) (name : Option Text)
  /-- A target with a sidecar was edited. -/
  | modifiedTarget (target : Text)
  /-- A source with a sidecar was edited. -/
  | modifiedSource (source : Text)
  /-- A document with a sidecar was edited, so that nothing is done. -/
  | skippedModified (name : Text)
  /-- A target has the content of the source already. -/
  | upToDate (target : Text)
  /-- The content of a source was applied. -/
  | applied (source target : Text)
  /-- All sections of a source were applied. -/
  | appliedAll (source target : Text)
  /-- Some sections of a source were applied. -/
  | appliedSome (count : Nat) (source target : Text)
  /-- No section of a source was applied, to a target that may have been edited. -/
  | appliedNone (source target : Text) (isModified : Bool)
  /-- A document names no file to apply it to. -/
  | noTarget (source : Text)
  /-- A file was created from a source. -/
  | appliedToCreate (source : Text) (target : Path)
  /-- A source was applied to a file. -/
  | appliedToFile (source : Text) (target : Path)
  /-- A document names no source. -/
  | noSource (target : Text)
  /-- The source of a sidecar cannot be read. -/
  | sidecarSourceFailed (source : Text) (cause : Failure)
  /-- The source of a section cannot be read. -/
  | sectionSourceFailed (source : Text) (cause : Failure)

namespace Notice

/-- The level of a notice. -/
def level : Notice → Level
  | .ignoredMarker _ _ | .noTargetSection _ _ => .debug
  | .readOnly _ | .modeSet _ _ | .sidecarCreated _ | .upToDate _ | .applied _ _ | .appliedAll _ _
  | .appliedSome _ _ _ | .appliedNone _ _ _ | .appliedToCreate _ _ | .appliedToFile _ _
  | .noSource _ => .info
  | .faultyMarker _ _ | .defectiveSection _ _ | .unusableMarkers _ | .overlap _ _
  | .undecodedPermissions _ _ | .commentsToSidecar _ _ | .sidecarToComments _ _
  | .unmanagedTarget _ | .unmanagedSource _ | .sectionToSidecar | .modifiedSection _
  | .keptSection _ _ | .noSourceSection _ _ | .modifiedTarget _ | .modifiedSource _
  | .skippedModified _ | .noTarget _ | .sidecarSourceFailed _ _ | .sectionSourceFailed _ _ =>
    .warning

/-- A section with the range of its lines. -/
def sectionRange (s : Tracked) : Text :=
  s.name.quoted ++ " (".toList ++ Text.ofInt s.first ++ "-".toList ++ Text.ofInt s.last ++
    ")".toList

/-- How a name that was asked for is shown. The place of no name at all is shown too. -/
def shownName : Option Text → Text
  | some name => name.quoted
  | none => "[]".toList

/-- The words for a notice. -/
def message : Notice → Text
  | .faultyMarker fault line => fault.message line
  | .defectiveSection name defect => defect.message name
  | .unusableMarkers fault => fault.message
  | .overlap one other =>
    "sections ".toList ++ sectionRange one ++ " and ".toList ++ sectionRange other ++
      " overlap, ignoring both".toList
  | .undecodedPermissions argument line =>
    "cannot decode permissions ".toList ++ argument.quoted ++ " on line ".toList ++ Text.ofInt line
  | .ignoredMarker kind line =>
    "ignoring file-scoped ".toList ++ kind.keyword ++ " marker on line ".toList ++ Text.ofInt line
  | .readOnly path => path.toText ++ " is read-only".toList
  | .modeSet path mode =>
    "set permissions of ".toList ++ path.toText ++ " to ".toList ++ Text.octal mode
  | .sidecarCreated path => "created metafile ".toList ++ path.toText
  | .commentsToSidecar source target =>
    "cannot apply comment file ".toList ++ source ++ " to metafile ".toList ++ target
  | .sidecarToComments source target =>
    "cannot apply metafile ".toList ++ source ++ " to comment file ".toList ++ target
  | .unmanagedTarget target => "cannot apply to unmanaged file ".toList ++ target
  | .unmanagedSource source => source ++ " is unmanaged, cannot apply".toList
  | .sectionToSidecar => "cannot apply individual section to file managed by metafile".toList
  | .modifiedSection name => "cannot apply modified section ".toList ++ name.quoted
  | .keptSection name target =>
    "section ".toList ++ name.quoted ++ " in ".toList ++ target ++
      " has local changes, skipping".toList
  | .noTargetSection document name => document ++ " has no section ".toList ++ name.quoted
  | .noSourceSection document name =>
    document ++ " has no section ".toList ++ shownName name
  | .modifiedTarget target => "target ".toList ++ target ++ " modified, skipping".toList
  | .modifiedSource source => "source file ".toList ++ source ++ " modified".toList
  | .skippedModified name => name ++ " modified, skipping".toList
  | .upToDate target => "file ".toList ++ target ++ " already up to date".toList
  | .applied source target => "applied ".toList ++ source ++ " to ".toList ++ target
  | .appliedAll source target =>
    "applied all sections from ".toList ++ source ++ " to ".toList ++ target
  | .appliedSome count source target =>
    "applied ".toList ++ Text.ofNat count ++ " sections from ".toList ++ source ++ " to ".toList ++
      target
  | .appliedNone source target isModified =>
    "applied no sections from ".toList ++ source ++ " to ".toList ++ target ++
      (if isModified then " (modified)".toList else [])
  | .noTarget source => source ++ " has no target file".toList
  | .appliedToCreate source target =>
    "applied ".toList ++ source ++ " to create ".toList ++ target.toText
  | .appliedToFile source target => "applied ".toList ++ source ++ " to ".toList ++ target.toText
  | .noSource target => target ++ " has no source".toList
  | .sidecarSourceFailed source cause =>
    "failed to apply metafile source ".toList ++ source ++ ": ".toList ++ cause.message
  | .sectionSourceFailed source cause =>
    "could not open source file ".toList ++ source ++ ": ".toList ++ cause.message

end Notice

end TrackedSections
