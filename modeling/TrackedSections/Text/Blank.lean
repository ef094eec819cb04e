import TrackedSections.Text.Basic

/-!
# Blank characters and words

A marker line is made of words separated by blanks. The blank characters are the 29 that Unicode
counts as white space or as a separator of paragraphs, segments or lines, among them the four
information separators U+001C to U+001F.
-/

namespace TrackedSections.Text

/-- The blank characters as inclusive ranges of code points. -/
def blankRanges : List (Nat × Nat) :=
  [(0x9, 0xd), (0x1c, 0x20), (0x85, 0x85), (0xa0, 0xa0), (0x1680, 0x1680), (0x2000, 0x200a),
   (0x2028, 0x2029), (0x202f, 0x202f), (0x205f, 0x205f), (0x3000, 0x3000)]

/-- `inRanges table c` holds when the code point of `c` lies in one of the ranges. -/
def inRanges (table : List (Nat × Nat)) (c : Char) : Bool :=
  table.any fun (first, last) => first ≤ c.toNat && c.toNat ≤ last

/-- `isBlank c` holds of the characters that separate words. -/
def isBlank (c : Char) : Bool := inRanges blankRanges c

/-- `trimLeft t` is `t` without the blanks that it starts with. -/
def trimLeft (t : Text) : Text := t.dropWhile isBlank

/-- `trim t` is `t` without the blanks at either end. -/
def trim (t : Text) : Text := dropTrailing isBlank (trimLeft t)

/-- `words t` is the list of maximal stretches of `t` without a blank. -/
def words (t : Text) : List Text := (cutAt isBlank t).filter fun piece => !piece.isEmpty

end TrackedSections.Text
