import TrackedSections.CommandLine.Commands

/-!
# What a command may look at

Before a command is carried out, its surroundings have to be known: the paths among its arguments, and
the paths that the documents there name. `Invocation.arguments` gives the former and
`Invocation.references` the latter, once the former are known.
-/

namespace TrackedSections.CommandLine

/-- The paths among the arguments of a command. -/
def Command.paths : Command → List Text
  | .compile file _ | .info file | .query file _ | .delete file _ | .apply file _ => [file]
  | .update target input _ _ => target :: input.toList
  | .check directory => [directory]

/-- Whether a command handles the files below a directory. -/
def Command.isRecursive : Command → Bool
  | .apply _ _ | .check _ => true
  | .compile _ _ | .info _ | .query _ _ | .delete _ _ | .update _ _ _ _ => false

/-- The paths that a text may stand for: itself, and itself seen from home. -/
def readings (host : Host) (written : Text) : List Path :=
  Path.ofText written :: (host.expand written).toOption.toList

/-- The path of a configuration. -/
def configPaths (host : Host) : Argument → List Path
  | none | some [] => host.configPath.toOption.toList
  | some written => [Path.ofText written]

/-- A path with that of the sidecar there. -/
def withSidecar (p : Path) : List Path := p :: (Sidecar.pathFor p).toOption.toList

/-- The paths among the arguments of an invocation. -/
def Invocation.arguments (invocation : Invocation) (host : Host) : List Path :=
  configPaths host invocation.settings.config ++
    (invocation.command.paths.flatMap (readings host)).flatMap withSidecar

/-- The paths that a document names. -/
def namedBy (host : Host) (d : Document) : List Path :=
  let sources := (d.sidecar.bind (·.source)).toList ++ d.tracked.filterMap (·.source)
  let seen (p : Path) : List Path := p :: (d.path.map fun place => place.parent.join p).toList
  d.target.toList.flatMap (readings host) ++ (sources.flatMap (readings host)).flatMap seen

/-- The documents that a command starts from. -/
def Invocation.documents (invocation : Invocation) (view : View) : List Document :=
  let load (written : Text) : Option Document :=
    ((invocation.settings.loadDocument written).report view).1.toOption
  let below (p : Path) : List Path :=
    if invocation.command.isRecursive then
      ((Inspection.walk p).report view).1.toOption.getD []
    else []
  invocation.command.paths.flatMap fun written =>
    (load written).toList ++
      ((readings view.host written).flatMap below).filterMap fun p => load p.toText

/-- The paths that the documents of a command name. -/
def Invocation.references (invocation : Invocation) (view : View) : List Path :=
  ((invocation.documents view).flatMap (namedBy view.host)).flatMap withSidecar

end TrackedSections.CommandLine
