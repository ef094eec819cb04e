import TrackedSections.CommandLine.Grammar

/-!
# Commands

An `Invocation` is a command with its arguments and the options that hold for every command.
`Invocation.read` finds it in a list of arguments.
-/

namespace TrackedSections.CommandLine

/-- What is to be done. -/
inductive Command where
  /-- Accept the content of a file. -/
  | compile (file : Text) (wantsSidecar : Bool)
  /-- Show what is tracked in a file. -/
  | info (file : Text)
  /-- Print sections of a file, or all of it. -/
  | query (file : Text) (sections : List Argument)
  /-- Stop tracking a section. -/
  | delete (file : Text) (name : Argument)
  /-- Pull into a file from an input or from the sources that it names. -/
  | update (target : Text) (input : Argument) (sections : List Argument) (printsOnly : Bool)
  /-- Apply a file, or the files of a directory, to their targets. -/
  | apply (file : Text) (isDry : Bool)
  /-- Look for modified files in a directory. -/
  | check (directory : Text)
  deriving DecidableEq, Repr

/-- The options that hold for every command. -/
structure Settings where
  /-- The comment prefix to be used, if one was given. A value that is absent is no prefix. -/
  commentPrefix : Option Argument
  /-- The configuration to be used. -/
  config : Argument
  /-- How much is to be told. -/
  verbosity : Nat
  deriving DecidableEq, Repr

/-- A command with the options that hold for every command. -/
structure Invocation where
  settings : Settings
  command : Command
  deriving DecidableEq, Repr

/-- An option that is counted. -/
def flag (names : List String) : OptionForm := ⟨names.map (·.toList), .count⟩

/-- An option with a value. -/
def valued (names : List String) : OptionForm := ⟨names.map (·.toList), .value⟩

/-- The option that asks for help. -/
def helpOption : OptionForm := ⟨["-h".toList, "--help".toList], .help⟩

/-- The grammar of all arguments. -/
def mainGrammar : Grammar :=
  ⟨[helpOption, ⟨["--version".toList], .version⟩, valued ["--syntax"], valued ["--config"],
    flag ["-v", "--verbose"]], .command⟩

/-- The grammar of the arguments of a command. -/
def commandGrammar? (name : Text) : Option Grammar :=
  [("compile", [flag ["-m", "--metafile"]], 1),
   ("info", [], 1),
   ("query", [valued ["-s", "--section"]], 1),
   ("delete", [], 2),
   ("update", [valued ["-i", "--input"], valued ["--section"], flag ["-p", "--print"]], 1),
   ("apply", [flag ["--dry-run"]], 1),
   ("check", [], 1)].findSome? fun (word, options, count) =>
    if word.toList = name then some ⟨helpOption :: options, .words count⟩ else none

/-- The command that a name and the findings among its arguments stand for. -/
def Command.ofFindings? (name : Text) (f : Findings) : Option Command :=
  match String.ofList name, f.words with
  | "compile", [some file] => some (.compile file (f.count "--metafile" ≠ 0))
  | "info", [some file] => some (.info file)
  | "query", [some file] => some (.query file (f.values "--section"))
  | "delete", [some file, word] => some (.delete file word)
  | "update", [some file] =>
    some (.update file ((f.value? "--input").join) (f.values "--section") (f.count "--print" ≠ 0))
  | "apply", [some file] => some (.apply file (f.count "--dry-run" ≠ 0))
  | "check", [some directory] => some (.check directory)
  | _, _ => none

/-- The settings that the findings among all arguments stand for. -/
def Settings.ofFindings (f : Findings) : Settings :=
  ⟨f.value? "--syntax", (f.value? "--config").join, f.count "--verbose"⟩

/-- Reads a command with its arguments. -/
def Command.read (name : Text) (arguments : List Text) : Except Stop Command := do
  match commandGrammar? name with
  | none => throw .misuse
  | some grammar =>
    let f ← grammar.read arguments
    if f.hasSurplus then throw .misuse
    match ofFindings? name f with
    | some command => pure command
    | none => throw .misuse

/-- Reads a list of arguments. Without a command, it is a question for help. -/
def Invocation.read (arguments : List Text) : Except Stop Invocation := do
  let f ← mainGrammar.read arguments
  match f.command with
  | some (name, arguments) =>
    let command ← Command.read name arguments
    if f.hasSurplus then throw .misuse
    pure ⟨.ofFindings f, command⟩
  | none => throw (if f.hasSurplus then .misuse else .help)

end TrackedSections.CommandLine
