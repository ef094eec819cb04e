import TrackedSections.CommandLine.Invocation
import TrackedSections.CommandLine.Reply
import TrackedSections.ConfigFile
import TrackedSections.Document.Compile
import TrackedSections.Update

/-!
# Carrying out commands

Each command is an inspection if it only shows something, and an operation if it may write. A dry run
and an update that only prints are inspections too.
-/

namespace TrackedSections.CommandLine

namespace Settings

/-- The comment prefix to read files with. A prefix that is absent matches nothing, like an empty one.
-/
def readingPrefix (settings : Settings) : Option Text := settings.commentPrefix.map (·.getD [])

/-- How the comment prefix of a document is shown. The absent prefix is shown by its brackets. -/
def shownPrefix (settings : Settings) (d : Document) : Text :=
  match settings.commentPrefix with
  | some none => "[]".toList
  | _ => d.commentPrefix

/-- Reads the configuration. -/
def loadConfig (settings : Settings) : Inspection Config := Config.load settings.config

/-- Reads a document. -/
def loadDocument (settings : Settings) (written : Text) : Inspection Document := do
  let config ← settings.loadConfig
  Document.load written settings.readingPrefix config

end Settings

/-- The reply when a file does not exist. -/
def missingFile (written : Text) (words : String) : Reply :=
  .refusal ("file ".toList ++ written ++ words.toList)

/-- How the name of a section is shown that was given on the command line. -/
def shownName (name : Argument) : Text := name.getD "[]".toList

/-- The words about a section that a file does not have. -/
def noSection (name : Argument) (written : Text) : Text :=
  "no section '".toList ++ shownName name ++ "' in ".toList ++ written

/-- Shows what is tracked in a file. -/
def info (settings : Settings) (written : Text) : Inspection Reply := do
  if ← Inspection.isFile (Path.ofText written) then
    Inspection.answered do
      let d ← settings.loadDocument written
      pure (.line (← Inspection.ofExcept (d.reportAs (settings.shownPrefix d))))
  else pure (missingFile written " not found")

/-- The sections of some names in a document, and an error line in place of each that is absent. -/
def printSections (d : Document) (written : Text) (sections : List Argument) : Reply :=
  let found := sections.map fun name => (name, name.bind d.get?)
  ⟨found.flatMap fun (name, s) =>
      match s with
      | some s => s.write d.commentPrefix
      | none => (Reply.refusal (noSection name written)).output,
    if found.all (·.2.isSome) then 0 else 1⟩

/-- Prints sections of a file, or all of it. -/
def query (settings : Settings) (written : Text) (sections : List Argument) : Inspection Reply := do
  if ← Inspection.isFile (Path.ofText written) then
    Inspection.answered do
      let d ← settings.loadDocument written
      pure (if d.hasSidecar || sections.isEmpty then .text d.write
        else printSections d written sections)
  else pure (missingFile written " not found")

/-- Looks for modified files in a directory. -/
def check (settings : Settings) (directory : Text) : Inspection Reply := do
  let root ← Inspection.expand directory
  if ← Inspection.isDirectory root then
    Inspection.answered do
      let config ← settings.loadConfig
      pure (.ofCheck (← Inspection.checkTree root.toText settings.readingPrefix config))
  else pure (.refusal "only directories can be checked".toList)

/-- Accepts the content of a file. -/
def compile (settings : Settings) (written : Text) (wantsSidecar : Bool) : Operation Reply := do
  if ← Operation.look (Inspection.isFile (Path.ofText written)) then
    Operation.answered do
      let config ← Operation.look settings.loadConfig
      let isChanged ← Operation.compile written wantsSidecar settings.readingPrefix config
      pure (.line (if isChanged then "compiled ".toList ++ written
        else written ++ " already compiled".toList))
  else pure (missingFile written " does not exist")

/-- Stops tracking a section. -/
def delete (settings : Settings) (written : Text) (name : Argument) : Operation Reply :=
  Operation.answered do
    let d ← Operation.look (settings.loadDocument written)
    if d.hasSidecar then
      pure (.refusal (written ++ " is tracked by a metafile and has no sections".toList))
    else
      match name.bind d.delete? with
      | none => pure (.refusal (noSection name written))
      | some rest =>
        let _ ← rest.save
        pure (.line ("deleted section ".toList ++ shownName name ++ " from ".toList ++ written))

/-- What an update comes to before anything is written. -/
inductive Updated where
  /-- Nothing is to be written. -/
  | done (reply : Reply)
  /-- The target changed. -/
  | changed (target : Document)

/-- The reply to an update that changes nothing. -/
def upToDate : Reply := .line "no updates necessary".toList

/-- The source of an update and the cache that holds it, if an input was given; none if the input is
the target itself. -/
def inputSource? (cache : SourceCache) (target : Text) :
    Argument → Inspection (Option (Option Document × SourceCache))
  | none | some [] => pure (some (none, cache))
  | some input => do
    let source ← Inspection.absolute (Path.ofText input)
    if source = (← Inspection.absolute (Path.ofText target)) then pure none
    else
      let (d, cache) ← cache.get input
      pure (some (some d, cache))

/-- Updates a document without writing it. -/
def updated (settings : Settings) (written : Text) (input : Argument) (sections : List Argument)
    (printsOnly : Bool) : Inspection Updated := do
  let config ← settings.loadConfig
  let target ← Document.load written settings.readingPrefix config
  match ← inputSource? (.empty settings.readingPrefix config) written input with
  | none => pure (.done upToDate)
  | some (source, cache) =>
    let (outcome, pull) := target.update cache sections source (← read)
    Inspection.tellAll pull.notices
    Inspection.ofExcept outcome
    if printsOnly then pure (.done (.text pull.target.write))
    else if !pull.isChanged then pure (.done upToDate)
    else pure (.changed pull.target)

/-- Pulls into a file. -/
def update (settings : Settings) (written : Text) (input : Argument) (sections : List Argument)
    (printsOnly : Bool) : Operation Reply :=
  Operation.answered do
    match ← Operation.look (updated settings written input sections printsOnly) with
    | .done reply => pure reply
    | .changed target =>
      let _ ← target.save
      pure (.line ("updated ".toList ++ written))

/-- What is known of the argument of an application. -/
inductive Applicant where
  /-- There is nothing to apply. -/
  | done (reply : Reply)
  /-- A directory. -/
  | directory (path : Path) (config : Config)
  /-- A document that names a target. -/
  | document (source : Document) (target : Text) (config : Config)

/-- Looks at the argument of an application. -/
def applicant (settings : Settings) (written : Text) : Inspection Applicant := do
  let config ← settings.loadConfig
  let path ← Inspection.expand written
  if ← Inspection.isDirectory path then pure (.directory path config)
  else if ← Inspection.isFile path then
    let source ← Document.load path.toText settings.readingPrefix config
    match source.target with
    | some target => pure (.document source target config)
    | none => pure (.done (.line ("No target comment found in ".toList ++ written)))
  else pure (.done (.refusal ("cannot open file ".toList ++ written)))

/-- Applies a file, or the files of a directory, as a dry run. -/
def dryApply (settings : Settings) (written : Text) : Inspection Reply :=
  Inspection.answered do
    match ← applicant settings written with
    | .done reply => pure reply
    | .directory path config =>
      let summary ← Inspection.dryApplyTree path.toText settings.readingPrefix config
      pure (.ofApplication summary true)
    | .document source target config =>
      pure (.ofOutcome written target true (← Inspection.dryApply source config))

/-- Applies a file, or the files of a directory. -/
def apply (settings : Settings) (written : Text) : Operation Reply :=
  Operation.answered do
    match ← Operation.look (applicant settings written) with
    | .done reply => pure reply
    | .directory path config =>
      let summary ← Operation.applyTree path.toText settings.readingPrefix config
      pure (.ofApplication summary false)
    | .document source target config =>
      pure (.ofOutcome written target false (← Operation.apply source config))

/-- Carries out a command. -/
def Command.run (settings : Settings) : Command → Operation Reply
  | .compile file wantsSidecar => CommandLine.compile settings file wantsSidecar
  | .info file => Operation.look (CommandLine.info settings file)
  | .query file sections => Operation.look (CommandLine.query settings file sections)
  | .delete file name => CommandLine.delete settings file name
  | .update target input sections printsOnly =>
    CommandLine.update settings target input sections printsOnly
  | .apply file isDry =>
    if isDry then Operation.look (CommandLine.dryApply settings file)
    else CommandLine.apply settings file
  | .check directory => Operation.look (CommandLine.check settings directory)

end TrackedSections.CommandLine
