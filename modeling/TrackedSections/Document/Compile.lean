import TrackedSections.Document.Save

/-!
# Accepting files

Compiling a file accepts its content: every hash marker in it, or the digest in its sidecar, becomes
that of the content as it is now. A file is rewritten only when that changes something. A file
without markers can be given a sidecar.
-/

namespace TrackedSections

namespace Sidecar

/-- The sidecar of a file, which is created when there is none. -/
def forFile (path : Path) : Operation Sidecar := do
  let content ←
    Operation.explain (.unreadable path) (Operation.look (Inspection.readFile path))
  let sidecarPath ← Operation.look (Inspection.ofExcept (pathFor path))
  if ← Operation.look (Inspection.isFile sidecarPath) then
    Operation.look (load sidecarPath content)
  else
    let s := (new sidecarPath path.name content).accept
    s.save
    Operation.tell (.sidecarCreated sidecarPath)
    pure s

end Sidecar

namespace Operation

/-- Accepts the content of the file at a path in its sidecar. The answer is whether the sidecar
changed or was created. -/
def compileSidecar (written : Text) : Operation Bool := do
  let path ← look (Inspection.expand written)
  let sidecarPath ← look (Inspection.ofExcept (Sidecar.pathFor path))
  let existed ← look (Inspection.isFile sidecarPath)
  let s ← Sidecar.forFile path
  if !existed then pure true
  else if s.change = .changed then
    s.accept.save
    pure true
  else pure false

/-- Accepts the content of the file at a path where its tracking is kept. The answer is whether that
changed anything. -/
def compileDocument (written : Text) (commentPrefix : Option Text) (config : Config) :
    Operation Bool := do
  let d ← look (Document.load written commentPrefix config)
  if d.change = .changed then
    let _ ← d.accept.save
    pure true
  else pure false

/-- Accepts the content of the file at a path, in a sidecar if one is wanted. -/
def compile (written : Text) (wantsSidecar : Bool) (commentPrefix : Option Text)
    (config : Config) : Operation Bool :=
  if wantsSidecar then compileSidecar written else compileDocument written commentPrefix config

end Operation

end TrackedSections
