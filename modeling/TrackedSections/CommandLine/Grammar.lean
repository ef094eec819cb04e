import TrackedSections.Text.Digit

/-!
# The grammar of a command line

A command line is a list of arguments. Options start with a dash, may be abbreviated, and may carry a
value after an equals sign or as the next argument; one-letter options can be joined. The other
arguments are positional, and so is everything after a separator `--`. `Grammar.read` finds the
options and the positional arguments, or a reason to stop.
-/

namespace TrackedSections.CommandLine

/-- What an option is for. -/
inductive Effect where
  /-- To be counted. -/
  | count
  /-- To carry a value. -/
  | value
  /-- To ask for help. -/
  | help
  /-- To ask for the version. -/
  | version
  deriving DecidableEq, Repr

/-- An option with the ways to write it. Its last name is the one that it is known by. -/
structure OptionForm where
  names : List Text
  effect : Effect
  deriving DecidableEq, Repr

/-- What follows the options: some number of positional arguments, or a command with all that belongs
to it. -/
inductive Tail where
  | words (count : Nat)
  | command
  deriving DecidableEq, Repr

/-- The options of a command line and what follows them. -/
structure Grammar where
  options : List OptionForm
  tail : Tail
  deriving DecidableEq, Repr

/-- Why a command line is not carried out. -/
inductive Stop where
  /-- It asks for help. -/
  | help
  /-- It asks for the version. -/
  | version
  /-- It breaks the grammar. -/
  | misuse
  deriving DecidableEq, Repr

/-- A value on the command line. A separator in place of a value leaves none. -/
abbrev Argument := Option Text

/-- The separator between options and other arguments. -/
def separator : Text := ['-', '-']

/-- The value that a word stands for. -/
def argumentOf (word : Text) : Argument := if word = separator then none else some word

/-- An option that occurs, by the name that it is known by, with its value if it carries one. -/
structure Occurrence where
  name : Text
  value : Option Argument
  deriving DecidableEq, Repr

/-- What an argument is. -/
inductive Piece where
  /-- An option as it was written, with the text that is joined to it. -/
  | option (form : OptionForm) (name : Text) (joined : Option Text)
  /-- An option that the grammar does not have. -/
  | unknown
  /-- The separator. -/
  | separator
  /-- Any other argument. -/
  | word
  deriving DecidableEq, Repr

/-- The name that an option is known by. -/
def OptionForm.name (form : OptionForm) : Text := form.names.getLastD []

/-- A negative number, possibly with a fraction and a line feed after it. -/
def isNegativeNumber : Text → Bool
  | '-' :: body =>
    let digits := if body.getLast? = some '\n' then body.dropLast else body
    match Text.splitAtFirst '.' digits with
    | none => digits ≠ [] ∧ digits.all Text.isDecimal
    | some (before, after) =>
      before.all Text.isDecimal ∧ after ≠ [] ∧ after.all Text.isDecimal
  | _ => false

namespace Grammar

/-- The options with their names, one by one. -/
def named (g : Grammar) : List (Text × OptionForm) :=
  g.options.flatMap fun form => form.names.map (·, form)

/-- The option with a name. -/
def find? (g : Grammar) (name : Text) : Option OptionForm := g.named.lookup name

/-- The options that an argument may abbreviate, or begin with if it has one dash. -/
def candidates (g : Grammar) (argument : Text) : List Piece :=
  match argument with
  | '-' :: '-' :: _ =>
    let (start, joined) := match Text.splitAtFirst '=' argument with
      | some (start, joined) => (start, some joined)
      | none => (argument, none)
    g.named.filterMap fun (name, form) =>
      if start.isPrefixOf name then some (.option form name joined) else none
  | _ =>
    g.named.filterMap fun (name, form) =>
      if name = argument.take 2 then some (.option form name (some (argument.drop 2)))
      else if argument.isPrefixOf name then some (.option form name none)
      else none

/-- The option that is written before an equals sign. -/
def beforeEquals? (g : Grammar) (argument : Text) : Option Piece := do
  let (name, joined) ← Text.splitAtFirst '=' argument
  let form ← g.find? name
  pure (.option form name (some joined))

/-- What an argument that starts with a dash and is longer than it may be. -/
def classifyDashed (g : Grammar) (argument : Text) : Except Stop Piece :=
  match g.beforeEquals? argument with
  | some piece => .ok piece
  | none =>
    match g.candidates argument with
    | [piece] => .ok piece
    | [] => .ok (if isNegativeNumber argument || argument.contains ' ' then .word else .unknown)
    | _ => .error .misuse

/-- What an argument before the separator is. -/
def classify (g : Grammar) (argument : Text) : Except Stop Piece :=
  match argument with
  | '-' :: _ :: _ =>
    match g.find? argument with
    | some form => .ok (.option form argument none)
    | none => g.classifyDashed argument
  | _ => .ok .word

/-- Tells what each argument is. After the separator, all are words. -/
def classifyAll (g : Grammar) : List Text → Except Stop (List (Piece × Text))
  | [] => .ok []
  | argument :: rest =>
    if argument = separator then .ok ((.separator, argument) :: rest.map (.word, ·))
    else do
      let piece ← g.classify argument
      let pieces ← g.classifyAll rest
      pure ((piece, argument) :: pieces)

/-- The options in an argument that joins one-letter options, and whether the last of them needs the
next argument as its value. -/
def unjoin (g : Grammar) (form : OptionForm) (name : Text) :
    Text → Except Stop (List OptionForm × Option Argument × Bool)
  | [] => if form.effect = .value then .ok ([form], some (some []), false) else .error .misuse
  | c :: joined =>
    if form.effect = .value then .ok ([form], some (argumentOf (c :: joined)), false)
    else if name.take 2 = separator then .error .misuse
    else
      match g.find? ['-', c], joined with
      | none, _ => .error .misuse
      | some next, [] => .ok ([form, next], none, next.effect = .value)
      | some next, d :: joined => do
        let (forms, value, needsNext) ← g.unjoin next ['-', c] (d :: joined)
        pure (form :: forms, value, needsNext)

/-- The options in an option argument with their values, if they are found there. -/
def occurrences (g : Grammar) (form : OptionForm) (name : Text) :
    Option Text → Except Stop (List OptionForm × Option Argument × Bool)
  | none => .ok ([form], none, form.effect = .value)
  | some joined => g.unjoin form name joined

end Grammar

/-- What a command line says: its options, its positional arguments, the command with its arguments,
and whether anything has no place in the grammar. -/
structure Findings where
  occurrences : List Occurrence
  words : List Argument
  command : Option (Text × List Text)
  hasSurplus : Bool
  deriving DecidableEq, Repr

namespace Findings

/-- Nothing was found yet. -/
def empty : Findings := ⟨[], [], none, false⟩

/-- How often an option occurs. -/
def count (f : Findings) (name : String) : Nat :=
  (f.occurrences.filter (·.name = name.toList)).length

/-- The values of an option, in order. -/
def values (f : Findings) (name : String) : List Argument :=
  (f.occurrences.filter (·.name = name.toList)).filterMap (·.value)

/-- The value of an option is the last one that was given. -/
def value? (f : Findings) (name : String) : Option Argument := (f.values name).getLast?

/-- Adds options, of which the last may have a value. A question for help or for the version ends the
reading. -/
def addOptions (value : Option Argument) : List OptionForm → Findings → Except Stop Findings
  | [], f => .ok f
  | form :: forms, f =>
    match form.effect with
    | .help => .error .help
    | .version => .error .version
    | .count | .value =>
      let own := if forms = [] then value else none
      addOptions value forms { f with occurrences := f.occurrences ++ [⟨form.name, own⟩] }

/-- Adds a positional argument that consists of the given arguments. One separator in it does not
count. -/
def addWord (arguments : List Text) (f : Findings) : Findings :=
  { f with words := f.words ++ [(arguments.erase separator).head?] }

/-- Notes an argument that has no place in the grammar. -/
def addSurplus (f : Findings) : Findings := { f with hasSurplus := true }

end Findings

namespace Grammar

/-- The positional argument at the start of some pieces, with a separator before or after it. -/
def wordAt? : List (Piece × Text) → Option (List Text × List (Piece × Text))
  | (.word, word) :: (.separator, mark) :: rest => some ([word, mark], rest)
  | (.word, word) :: rest => some ([word], rest)
  | (.separator, mark) :: (.word, word) :: rest => some ([mark, word], rest)
  | _ => none

/-- A positional argument is made of some of the pieces. -/
theorem wordAt?_length_le {piece : Piece × Text} {pieces rest : List (Piece × Text)}
    {arguments : List Text} (h : wordAt? (piece :: pieces) = some (arguments, rest)) :
    rest.length ≤ pieces.length := by
  unfold wordAt? at h
  grind

/-- The command at the start of some pieces. A separator before it is taken for its name. -/
def commandAt? : List (Piece × Text) → Option (Text × List Text)
  | (.word, name) :: rest => some (name, rest.map (·.2))
  | (.separator, mark) :: (.word, word) :: rest => some (mark, word :: rest.map (·.2))
  | _ => none

/-- Reads the pieces of a command line, some of whose positional arguments are found already. -/
def readPieces (g : Grammar) (pieces : List (Piece × Text)) (f : Findings) :
    Except Stop Findings :=
  match pieces with
  | [] => .ok f
  | (.unknown, _) :: rest => g.readPieces rest f.addSurplus
  | (.option form name joined, _) :: rest => do
    let (forms, value, needsNext) ← g.occurrences form name joined
    if needsNext then
      match rest with
      | (.word, word) :: rest => g.readPieces rest (← f.addOptions (some (argumentOf word)) forms)
      | _ => .error .misuse
    else g.readPieces rest (← f.addOptions value forms)
  | piece :: rest =>
    match g.tail with
    | .command =>
      match commandAt? (piece :: rest) with
      | some command => .ok { f with command := some command }
      | none => .ok f.addSurplus
    | .words count =>
      if f.words.length < count then
        match found : wordAt? (piece :: rest) with
        | some (arguments, rest) =>
          have := wordAt?_length_le found
          g.readPieces rest (f.addWord arguments)
        | none => g.readPieces rest f.addSurplus
      else g.readPieces rest f.addSurplus
termination_by pieces.length
decreasing_by all_goals simp only [List.length_cons]; omega

/-- Reads a command line. -/
def read (g : Grammar) (arguments : List Text) : Except Stop Findings := do
  g.readPieces (← g.classifyAll arguments) .empty

end Grammar

end TrackedSections.CommandLine
