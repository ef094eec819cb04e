import TrackedSections.CommentPrefix
import TrackedSections.Document.Assembly
import TrackedSections.Inspection

/-!
# Reading documents from disk

A tracked file is backed by its sidecar if there is one next to it. Otherwise it must be text, and its
sections are found with a comment prefix that is given or detected. A file that cannot be opened for
writing is read all the same, and the document remembers it.
-/

namespace TrackedSections

namespace Sidecar

/-- Reads the sidecar at a path, for a file with a given content. -/
def load (path : Path) (content : Bytes) : Inspection Sidecar := do
  match ← Inspection.attempt (Inspection.readFile path) with
  | .ok octets => Inspection.ofExcept (read path content octets)
  | .error failure =>
    if failure.comesFromDisk then throw (.sidecarUnreadable path failure) else throw failure

end Sidecar

namespace Inspection

/-- The file at a path without `..`, by which files that may not be opened are known. -/
def identity (p : Path) : Inspection Path := do
  pure (Path.resolve ⟨.slash, (← read).disk.workdir⟩ p)

/-- Opens a file. The answer is its content and whether it may only be read. -/
def openFile (p : Path) : Inspection (Bytes × Bool) := do
  if p.hasNull then throw .nullInPath
  let host := (← read).host
  let file ← identity p
  if file ∈ host.unreadable then throw (.unreadable p (.refused .permissionDenied p))
  match ← attempt (readFile p) with
  | .ok content => pure (content, file ∈ host.unwritable)
  | .error failure =>
    if failure.comesFromDisk then throw (.unreadable p failure) else throw failure

end Inspection

namespace Document

/-- The document of a file with a given content and no sidecar. Without a comment prefix, one is
detected. -/
def ofOctets (path : Path) (content : Bytes) (isReadOnly : Bool) (commentPrefix : Option Text)
    (config : Config) : Inspection Document := do
  match Text.decode content with
  | .error fault => throw (.notText path fault)
  | .ok t =>
    let commentPrefix := commentPrefix.getD (CommentPrefix.detect config path t.firstLine)
    let (d, notices) := ofText commentPrefix (some path) t
    Inspection.tellAll notices
    pure { d with isReadOnly }

/-- The document of a file that was opened: that of the sidecar, if there is one next to the file. -/
def ofOpened (path : Path) (content : Bytes) (isReadOnly : Bool) (commentPrefix : Option Text)
    (config : Config) : Inspection Document := do
  let sidecarPath ← Inspection.ofExcept (Sidecar.pathFor path)
  if ← Inspection.isFile sidecarPath then
    let s ← Sidecar.load sidecarPath content
    pure (ofSidecar s (some path) isReadOnly)
  else ofOctets path content isReadOnly commentPrefix config

/-- Reads the tracked file at a path as it is written somewhere. -/
def load (written : Text) (commentPrefix : Option Text) (config : Config) :
    Inspection Document := do
  let path ← Inspection.expand written
  let (content, isReadOnly) ← Inspection.openFile path
  if isReadOnly then Inspection.tell (.readOnly path)
  ofOpened path content isReadOnly commentPrefix config

end Document

end TrackedSections
