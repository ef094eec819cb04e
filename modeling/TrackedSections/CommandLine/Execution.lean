import TrackedSections.CommandLine.Commands

/-!
# A run of the program

`execute` reads the arguments and carries out the command. The notices that were given are printed
apart from the reply, those that the verbosity allows.
-/

namespace TrackedSections.CommandLine

/-- What a run prints and its exit code, or the failure that ended it, and the disk after it. -/
structure Execution where
  exitCode : Except Failure Nat
  output : Text
  errors : Text
  disk : Disk

/-- The name of the program with its version. -/
def versionLine : Text := Text.closeLine ("imosid ".toList ++ Sidecar.currentVersion)

/-- How the program is used. -/
def usage : Text :=
  ("usage: imosid [-h] [--version] [--syntax SYNTAX] [--config CONFIG] [-v] " ++
    "compile|info|query|delete|update|apply|check ...\n").toList

/-- The help text. -/
def help : Text :=
  usage ++ ("\nInstant manager of sections in dotfiles\n\n" ++
    "  compile FILE [-m]          accept the content of a file, with -m in a metafile\n" ++
    "  info FILE                  list what is tracked in a file\n" ++
    "  query FILE [-s SECTION]    print a file or sections of it\n" ++
    "  delete FILE SECTION        stop tracking a section\n" ++
    "  update TARGET [-i INPUT] [--section SECTION] [-p]\n" ++
    "                             pull sections from their sources, or from an input\n" ++
    "  apply FILE [--dry-run]     apply a file or directory to the targets named in it\n" ++
    "  check DIRECTORY            look for modified files\n\n" ++
    "  --syntax SYNTAX            comment prefix to use instead of a detected one\n" ++
    "  --config CONFIG            configuration to use\n" ++
    "  -v, --verbose              tell more, repeat to tell all\n").toList

/-- Whether a level is printed at a verbosity. -/
def isPrinted (verbosity : Nat) : Level → Bool
  | .warning => true
  | .info => 1 ≤ verbosity
  | .debug => 2 ≤ verbosity

/-- The name of a level at the start of a line. -/
def levelLabel : Level → Text
  | .debug => "DEBUG".toList
  | .info => "INFO".toList
  | .warning => "WARNING".toList

/-- The lines for notices. -/
def noticeLines (verbosity : Nat) (notices : List Notice) : Text :=
  (notices.filter fun notice => isPrinted verbosity notice.level).flatMap fun notice =>
    Text.closeLine (levelLabel notice.level ++ ": ".toList ++ notice.message)

/-- A run with given arguments. -/
def execute (arguments : List Text) (view : View) : Execution :=
  match Invocation.read arguments with
  | .error .help => ⟨.ok 0, help, [], view.disk⟩
  | .error .version => ⟨.ok 0, versionLine, [], view.disk⟩
  | .error .misuse => ⟨.ok 2, [], usage, view.disk⟩
  | .ok invocation =>
    let ((outcome, notices), disk) :=
      (invocation.command.run invocation.settings).report view
    let errors := noticeLines invocation.settings.verbosity notices
    match outcome with
    | .ok reply => ⟨.ok reply.exitCode, reply.output, errors, disk⟩
    | .error failure => ⟨.error failure, [], errors, disk⟩

end TrackedSections.CommandLine
