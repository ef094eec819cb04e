import TrackedSections.Path
import TrackedSections.Text.Digit

/-!
# Comment prefixes

The comment prefix of a file is found from its name, then its extension, then the interpreter that
its first line names, with and without a version. At each step an entry of the user hides the common
one, even if it is empty; an empty entry passes to the next step. If no step has an answer, the
default of the user counts, and a number sign in the end. So a prefix is never empty.
-/

namespace TrackedSections

/-- A table of comment prefixes. -/
abbrev Prefixes := List (Text × Text)

/-- What the user says about comment prefixes, and the file that says so. -/
structure Config where
  filenames : Prefixes
  extensions : Prefixes
  interpreters : Prefixes
  defaultPrefix : Text
  origin : Option Path
  deriving DecidableEq, Repr

namespace CommentPrefix

/-- The prefix when nothing else is known. -/
def fallback : Text := ['#']

end CommentPrefix

/-- The configuration of a user who says nothing. -/
def Config.empty : Config := ⟨[], [], [], CommentPrefix.fallback, none⟩

namespace CommentPrefix

/-- A table from strings. -/
def tableOf (entries : List (String × String)) : Prefixes :=
  entries.map fun (key, value) => (key.toList, value.toList)

/-- The prefixes of common file names. -/
def commonFilenames : Prefixes :=
  tableOf [("dunstrc", "#"), ("jgmenurc", "#"), ("zshrc", "#"), ("bashrc", "#"),
    ("Xresources", "!"), ("xsettingsd", "#"), ("vimrc", "\"")]

/-- The prefixes of common extensions. -/
def commonExtensions : Prefixes :=
  tableOf [("py", "#"), ("sh", "#"), ("zsh", "#"), ("bash", "#"), ("fish", "#"), ("c", "//"),
    ("cpp", "//"), ("rasi", "//"), ("desktop", "#"), ("conf", "#"), ("vim", "\""), ("reg", ";"),
    ("rc", "#"), ("ini", ";"), ("xresources", "!")]

/-- The prefixes of common interpreters. -/
def commonInterpreters : Prefixes :=
  tableOf [("python", "#"), ("sh", "#"), ("bash", "#"), ("zsh", "#"), ("fish", "#"),
    ("node", "//")]

/-- The entry of a key: that of the user, or the common one. -/
def prefixAt? (own common : Prefixes) (key : Text) : Option Text :=
  (own.lookup key).or (common.lookup key)

/-- What follows the last slash or space of a text that has one. -/
def afterLastSeparator? (t : Text) : Option Text :=
  let isSeparator (c : Char) : Bool := c = '/' || c = ' '
  if t.any isSeparator then some (t.reverse.takeWhile fun c => !isSeparator c).reverse else none

/-- `interpreter? line` is the interpreter that a first line names: the last word or file name of a
hashbang that has one after its first directory. -/
def interpreter? (line : Text) : Option Text :=
  match line.trim with
  | '#' :: '!' :: '/' :: rest =>
    if '\n' ∈ rest then none
    else
      match afterLastSeparator? rest with
      | none => none
      | some word => if word.trim = [] then none else some word.trim
  | _ => none

/-- An interpreter without a version: digits and dots at the end are dropped. -/
def withoutVersion (interpreter : Text) : Text :=
  Text.dropTrailing (fun c => Text.isDecimal c || c = '.') interpreter

/-- A file name without the dots that it starts with, if something is left. -/
def plainName? (path : Path) : Option Text :=
  let name := path.name.dropWhile (· = '.')
  if name = [] then none else some name

/-- What the steps find for a file, in order. -/
def candidates (config : Config) (path : Path) (firstLine : Text) : List (Option Text) :=
  let interpreters (key : Text) := prefixAt? config.interpreters commonInterpreters key
  [(plainName? path).bind (prefixAt? config.filenames commonFilenames),
   (Path.extensionOf path.name).bind (prefixAt? config.extensions commonExtensions),
   (interpreter? firstLine).bind interpreters,
   (interpreter? firstLine).bind fun interpreter => interpreters (withoutVersion interpreter),
   some config.defaultPrefix,
   some fallback]

/-- The comment prefix of a file with a path and a first line. -/
def detect (config : Config) (path : Path) (firstLine : Text) : Text :=
  (((candidates config path firstLine).filterMap id).find? (· ≠ [])).getD fallback

end CommentPrefix

end TrackedSections
