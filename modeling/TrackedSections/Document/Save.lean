import TrackedSections.Document.Load
import TrackedSections.Operation

/-!
# Writing documents to disk

A document is written to its own path or to another one. With a sidecar, the content and the sidecar
are written; otherwise the text. Then the permission bits of the file are set, if the document has
any. A document that was read from a file that must not be written goes to another path only.
-/

namespace TrackedSections

namespace Sidecar

/-- Writes a sidecar to its path. -/
def save (s : Sidecar) : Operation Unit := do
  match s.write with
  | .error failure => throw failure
  | .ok t => Operation.explain (.sidecarUnwritten s.path) (Operation.writeFile s.path t.encode)

end Sidecar

namespace Operation

/-- Sets the permission bits of a file to those that a number stands for. -/
def setPermissions (path : Path) (permissions : Int) : Operation Unit := do
  match Permissions.mode permissions with
  | .ok mode =>
    explain (.modeUnset path) (change (·.changeMode · mode) path)
    tell (.modeSet path mode)
  | .error fault =>
    if fault.isFormal then
      match Text.writeInt permissions with
      | .ok written => throw (.invalidPermissions path written)
      | .error fault => throw (.numeral fault)
    else throw (.permissions fault)

/-- Makes sure that something exists at a path. -/
def touch (path : Path) : Operation Unit := change (·.touch ·) path

/-- Creates an empty file and the directories above it. The answer is whether there was no file
before. -/
def createFile (written : Text) : Operation Bool := do
  let path ← look (Inspection.expand written)
  if ← look (Inspection.isFile path) then pure false
  else
    explain (.uncreated path) do
      makeDirectories path.parent
      touch path
    pure true

end Operation

namespace Document

/-- Writes the content of a document to a path, with its sidecar if it has one. -/
def saveContent (d : Document) (path : Path) : Operation Unit :=
  match d.sidecar with
  | some s => do
    Operation.writeFile path s.content
    s.save
  | none => Operation.writeFile path d.write.encode

/-- Writes a document to a path and sets the permission bits there. -/
def saveTo (d : Document) (path : Path) : Operation Unit := do
  Operation.explain (.unwritten path) (d.saveContent path)
  match d.permissions with
  | some permissions => Operation.setPermissions path permissions
  | none => pure ()

/-- Writes a document to its own path. The answer is that path. -/
def save (d : Document) : Operation Path := do
  match d.path with
  | none => throw .noPath
  | some path =>
    if d.isReadOnly then throw (.readOnly path)
    d.saveTo path
    pure path

/-- Writes a document to a path as it is written somewhere. The answer is that path. -/
def saveAt (d : Document) (written : Text) : Operation Path := do
  let path ← Operation.look (Inspection.expand written)
  d.saveTo path
  pure path

end Document

end TrackedSections
