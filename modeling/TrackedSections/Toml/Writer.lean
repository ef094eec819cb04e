import TrackedSections.Toml.Value

/-!
# Writing TOML

Each entry is one line with a bare key. Text is written between double quotes: quotes, backslashes
and controls but for the tabulator are escaped, the common ones by a letter and the others by their
code point.
-/

namespace TrackedSections.Toml

/-- The letter that stands for a character after a backslash. -/
def escapeLetter? (c : Char) : Option Char :=
  if c = '\x08' then some 'b'
  else if c = '\n' then some 'n'
  else if c = '\x0c' then some 'f'
  else if c = '\r' then some 'r'
  else if c = '"' then some '"'
  else if c = '\\' then some '\\'
  else none

/-- The controls but for the tabulator. They never stand for themselves in text on one line. -/
def isForbidden (c : Char) : Bool := (c.toNat < 0x20 && c ≠ '\t') || c.toNat = 0x7f

/-- The form of a character between double quotes. -/
def escape (c : Char) : Text :=
  match escapeLetter? c with
  | some letter => ['\\', letter]
  | none =>
    if isForbidden c then '\\' :: 'u' :: Text.padLeft 4 '0' (Text.hexadecimal c.toNat) else [c]

/-- Text between double quotes. -/
def writeText (t : Text) : Text := '"' :: t.flatMap escape ++ ['"']

/-- One line with a bare key and a written value. -/
def writeEntry (key value : Text) : Text := key ++ " = ".toList ++ value ++ ['\n']

end TrackedSections.Toml
