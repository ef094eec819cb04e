import TrackedSections.Text.Numeral
import TrackedSections.Text.Printable

/-!
# Quoted text

Messages show a name between quotes, so that its ends and its odd characters can be seen. The quote
is an apostrophe, or a double quote when the text has apostrophes and no double quote. A backslash
introduces the quote itself, another backslash, the three common controls and, by code point, every
character that is not printable.
-/

namespace TrackedSections.Text

/-- The quote that surrounds `t`. -/
def quoteMark (t : Text) : Char := if '\'' ∈ t ∧ '"' ∉ t then '"' else '\''

/-- `codeEscape c` names `c` by its code point with as many hexadecimal digits as its size needs. -/
def codeEscape (c : Char) : Text :=
  let digits := hexadecimal c.toNat
  if c.toNat ≤ 0xff then '\\' :: 'x' :: padLeft 2 '0' digits
  else if c.toNat ≤ 0xffff then '\\' :: 'u' :: padLeft 4 '0' digits
  else '\\' :: 'U' :: padLeft 8 '0' digits

/-- `escapeChar mark c` is the form of `c` between two quotes `mark`. -/
def escapeChar (mark c : Char) : Text :=
  if c = mark ∨ c = '\\' then ['\\', c]
  else if c = '\t' then ['\\', 't']
  else if c = '\n' then ['\\', 'n']
  else if c = '\r' then ['\\', 'r']
  else if isPrintable c then [c]
  else codeEscape c

/-- `quoted t` is `t` between quotes. -/
def quoted (t : Text) : Text :=
  let mark := quoteMark t
  mark :: t.flatMap (escapeChar mark) ++ [mark]

end TrackedSections.Text
