import TrackedSections.CommandLine.Execution
import TrackedSections.CommandLine.Footprint

/-!
# The program

The files that a command may look at are read into a `Disk`, the command is carried out there, and
what it changed is written back. Nothing is decided here.
-/

namespace TrackedSections.Main

open TrackedSections.CommandLine

/-- The mode of a file whose permission bits were not looked at. -/
def unseenMode : Nat := 0o10000

/-- A path without `..` as a string. -/
def nameOf (place : List Text) : String := String.ofList (Path.toText ⟨.slash, place⟩)

/-- What is known of the files while they are read. -/
structure Survey where
  tree : Node
  unwritable : List Path
  unreadable : List Path

/-- Whether a file can be opened. -/
def opens (name : String) (mode : IO.FS.Mode) : IO Bool := do
  try
    let _ ← IO.FS.Handle.mk name mode
    pure true
  catch _ => pure false

/-- Reads the entry at a place whose directory is known already. -/
def surveyEntry (survey : Survey) (place : List Text) : IO Survey := do
  let name := nameOf place
  let here := (← IO.currentDir) / name
  if (survey.tree.at? place).isSome then pure survey
  else if ← here.isDir then
    pure { survey with tree := Node.put (.directory unseenMode []) survey.tree place }
  else if ← here.pathExists then
    let readable ← opens name .read
    let content ← if readable then pure (← IO.FS.readBinFile name).toList else pure []
    let writable ← opens name .readWrite
    let path : Path := ⟨.slash, place⟩
    pure {
      tree := Node.put (.file content unseenMode) survey.tree place
      unreadable := if readable then survey.unreadable else path :: survey.unreadable
      unwritable := if writable then survey.unwritable else path :: survey.unwritable }
  else pure survey

/-- Reads the entries on the way to a path. -/
def surveyPath (workdir : List Text) (survey : Survey) (p : Path) : IO Survey := do
  let full := Path.absolute ⟨.slash, workdir⟩ p
  let steps := (List.range (full.names.length + 1)).map fun n =>
    (Path.resolve ⟨.slash, workdir⟩ ⟨.slash, full.names.take n⟩).names
  let places := steps.flatMap fun place =>
    (List.range (place.length + 1)).map place.take
  places.foldlM surveyEntry survey

/-- Reads everything below a place. -/
partial def surveyBelow (survey : Survey) (place : List Text) : IO Survey := do
  let here := (← IO.currentDir) / nameOf place
  if !(← here.isDir) then pure survey
  else
    (← here.readDir).toList.foldlM (fun survey entry => do
      let inner := place ++ [entry.fileName.toList]
      surveyBelow (← surveyEntry survey inner) inner) survey

/-- Writes what is new or different below a place. -/
partial def writeChanges (before after : Node) (place : List Text) : IO Unit := do
  match after with
  | .file content mode =>
    let name := nameOf place
    let old := before.at? place
    let isSame : Bool := match old with
      | some (.file bytes _) => bytes = content
      | _ => false
    unless isSame do IO.FS.writeBinFile name (.mk content.toArray)
    let oldMode := match old with
      | some (.file _ oldMode) => oldMode
      | _ => Disk.newFileMode
    unless mode = oldMode do
      let right (bits : Nat) : IO.AccessRight :=
        { read := bits.testBit 2, write := bits.testBit 1, execution := bits.testBit 0 }
      IO.setAccessRights name ⟨right (mode / 64), right (mode / 8), right mode⟩
  | .directory _ entries =>
    if (before.at? place).isNone then IO.FS.createDir (nameOf place)
    for (name, node) in entries do writeChanges before node (place ++ [name])

/-- The home directories of the accounts. -/
def accounts : IO (List (Text × Text)) := do
  try
    let lines := (← IO.FS.readFile "/etc/passwd").splitOn "\n"
    pure (lines.filterMap fun line =>
      match line.splitOn ":" with
      | name :: _ :: _ :: _ :: _ :: home :: _ => some (name.toList, home.toList)
      | _ => none)
  catch _ => pure []

/-- A variable of the environment. -/
def environmentValue? (name : String) : IO (Option Text) := do
  pure ((← IO.getEnv name).map (·.toList))

/-- The surroundings of the run, with nothing known about files. -/
def hostOf : IO Host := do
  let accounts ← accounts
  let user ← environmentValue? "USER"
  pure {
    home := ← environmentValue? "HOME"
    configDirectory := ← environmentValue? "XDG_CONFIG_HOME"
    configFile := ← environmentValue? "IMOSID_CONFIG"
    ownHome := user.bind fun name => accounts.lookup name
    accounts
    unwritable := []
    unreadable := [] }

/-- What an invocation may look at. -/
def surveyFor (invocation : Invocation) (host : Host) (workdir : List Text) : IO Survey := do
  let arguments := invocation.arguments host
  let survey ← (Path.ofText [] :: arguments).foldlM (surveyPath workdir)
    ⟨.directory unseenMode [], [], []⟩
  let survey ←
    if invocation.command.isRecursive then
      arguments.foldlM (fun survey p =>
        surveyBelow survey (Path.resolve ⟨.slash, workdir⟩ p).names) survey
    else pure survey
  let host := { host with unwritable := survey.unwritable, unreadable := survey.unreadable }
  (invocation.references ⟨host, ⟨survey.tree, workdir⟩⟩).foldlM (surveyPath workdir) survey

/-- Runs the program. -/
def run (arguments : List Text) : IO UInt32 := do
  let workdir := (Path.ofText (toString (← IO.currentDir)).toList).names
  let host ← hostOf
  let survey ← match Invocation.read arguments with
    | .ok invocation => surveyFor invocation host workdir
    | .error _ => pure ⟨.directory unseenMode [], [], []⟩
  let host := { host with unwritable := survey.unwritable, unreadable := survey.unreadable }
  let execution := execute arguments ⟨host, ⟨survey.tree, workdir⟩⟩
  writeChanges survey.tree execution.disk.tree []
  IO.print (String.ofList execution.output)
  IO.eprint (String.ofList execution.errors)
  match execution.exitCode with
  | .ok code => pure (UInt32.ofNat code)
  | .error failure =>
    IO.eprintln (String.ofList failure.message)
    pure 1

end TrackedSections.Main

/-- The entry point of the program. -/
def main (arguments : List String) : IO UInt32 :=
  TrackedSections.Main.run (arguments.map (·.toList))
