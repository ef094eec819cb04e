import TrackedSections.Tree

/-!
# What a command prints

A `Reply` is the text that a command prints and its exit code. A failure that concerns a file is
printed too; any other failure ends the command without a reply.
-/

namespace TrackedSections.CommandLine

/-- What a command prints and its exit code. -/
structure Reply where
  output : Text
  exitCode : Nat
  deriving DecidableEq, Repr

namespace Reply

/-- A reply of one line to a command that succeeded. -/
def line (t : Text) : Reply := ⟨Text.closeLine t, 0⟩

/-- The text of a file or section as the reply to a command that succeeded. -/
def text (t : Text) : Reply := ⟨t, 0⟩

/-- The reply to a command that failed. -/
def refusal (t : Text) : Reply := ⟨Text.closeLine ("ERROR: ".toList ++ t), 1⟩

/-- The exit code of an operation on several files. -/
def exitCodeOf (mishaps : List Mishap) : Nat := if mishaps.isEmpty then 0 else 1

/-- The line about files of one sort in the summary of an application. -/
def tally (label : String) (count : Nat) : Text :=
  Text.closeLine ("  ".toList ++ label.toList ++ Text.ofNat count)

/-- The line that ends the reply to a dry run, after an empty one. -/
def dryRunNote (isDry : Bool) : Text :=
  if isDry then "\n[DRY RUN] No files were modified.\n".toList else []

/-- The lines about the files that could not be handled. -/
def mishapLines (mishaps : List Mishap) : Text :=
  if mishaps.isEmpty then []
  else tally "Errors:  " mishaps.length ++ mishaps.flatMap fun mishap =>
    Text.closeLine ("    - ".toList ++ mishap.path.toText ++ ": ".toList ++ mishap.failure.message)

/-- The reply to the application of a directory. -/
def ofApplication (summary : ApplySummary) (isDry : Bool) : Reply :=
  let idle := summary.created.isEmpty && summary.updated.isEmpty
  ⟨"Apply Results\n".toList ++ Text.closeLine (List.replicate 40 '─') ++
      tally "Created: " summary.created.length ++ tally "Updated: " summary.updated.length ++
      tally "Skipped: " summary.skipped.length ++ mishapLines summary.mishaps ++
      (if idle then "\nnothing to do\n".toList else []) ++ dryRunNote isDry,
    exitCodeOf summary.mishaps⟩

/-- The reply to a check. -/
def ofCheck (summary : CheckSummary) : Reply :=
  let about (words : String) (paths : List Path) : Text :=
    paths.flatMap fun path => Text.closeLine (path.toText ++ words.toList)
  ⟨about " modified" summary.modified ++ about " is unmanaged" summary.unmanaged ++
      (summary.mishaps.flatMap fun mishap =>
        Text.closeLine ("could not open file ".toList ++ mishap.path.toText ++ ": ".toList ++
          mishap.failure.message)) ++
      (if summary.modified.isEmpty then "no modified files\n".toList else []),
    exitCodeOf summary.mishaps⟩

/-- The reply to the application of the file `written`, which names `target`. -/
def ofOutcome (written target : Text) (isDry : Bool) (outcome : Outcome) : Reply :=
  let words := match outcome with
    | .created => "applied ".toList ++ written ++ " to create ".toList ++ target
    | .updated => "applied ".toList ++ written ++ " to ".toList ++ target
    | .unchanged | .skipped =>
      "nothing applied from ".toList ++ written ++ " (".toList ++ outcome.word ++ [')']
  ⟨Text.closeLine words ++ dryRunNote isDry, 0⟩

end Reply

namespace Inspection

/-- Replies to a failure that concerns a file. -/
def answered (x : Inspection Reply) : Inspection Reply :=
  tryCatch x fun failure =>
    if failure.isExpected then pure (.refusal failure.message) else throw failure

end Inspection

namespace Operation

/-- Replies to a failure that concerns a file. -/
def answered (x : Operation Reply) : Operation Reply :=
  tryCatch x fun failure =>
    if failure.isExpected then pure (.refusal failure.message) else throw failure

end Operation

end TrackedSections.CommandLine
