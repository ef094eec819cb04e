/-!
# Text as a list of characters

`Text` is the type of every piece of text in the library. It is a list of characters, so that
readers and writers recurse on it directly. `pieces` cuts a text at a separator and `joinWith`
puts it together again; `lines` cuts a file into lines and says whether the last one is closed.
-/

namespace TrackedSections

/-- A text is the list of its characters. -/
abbrev Text := List Char

/-- A sequence of octets, the content of a file. -/
abbrev Bytes := List UInt8

namespace Text

/-- `cutAt p t` is the list of stretches of `t` between the characters that satisfy `p`. It is
never empty: a text without such a character is one stretch. -/
def cutAt (p : Char → Bool) : Text → List Text
  | [] => [[]]
  | c :: rest =>
    if p c then [] :: cutAt p rest
    else match cutAt p rest with
      | [] => [[c]]
      | piece :: others => (c :: piece) :: others

/-- `pieces sep t` is the list of stretches of `t` between the occurrences of `sep`. -/
def pieces (sep : Char) (t : Text) : List Text := cutAt (· == sep) t

/-- `joinWith sep ts` writes the texts one after another with `sep` between neighbours. -/
def joinWith (sep : Text) (ts : List Text) : Text :=
  (ts.intersperse sep).flatten

/-- `lines t` is the list of lines of a file with text `t`, together with whether its last line is
closed by a line feed. Only the line feed separates lines, so a carriage return belongs to its
line. The empty file has no line and counts as closed. -/
def lines (t : Text) : List Text × Bool :=
  let all := pieces '\n' t
  if all.getLast? = some [] then (all.dropLast, true) else (all, false)

/-- `closeLine l` is the line `l` followed by a line feed. -/
def closeLine (l : Text) : Text := l ++ ['\n']

/-- `firstLine t` is the text before the first line feed. -/
def firstLine (t : Text) : Text := t.takeWhile (· ≠ '\n')

/-- `normalizeNewlines t` is `t` with every line end written as a line feed: a carriage return, alone
or before a line feed, ends a line too. -/
def normalizeNewlines : Text → Text
  | [] => []
  | '\r' :: '\n' :: rest => '\n' :: normalizeNewlines rest
  | c :: rest => (if c = '\r' then '\n' else c) :: normalizeNewlines rest

/-- `endsWith t tail` holds when `t` ends in `tail`. -/
def endsWith (t tail : Text) : Bool := tail.isSuffixOf t

/-- `splitAtFirst sep t` is the text before the first `sep` and the text after it. -/
def splitAtFirst (sep : Char) : Text → Option (Text × Text)
  | [] => none
  | c :: rest =>
    if c = sep then some ([], rest)
    else (splitAtFirst sep rest).map fun (before, after) => (c :: before, after)

/-- `dropTrailing p t` is `t` without its longest tail of characters that satisfy `p`. -/
def dropTrailing (p : Char → Bool) (t : Text) : Text :=
  (t.reverse.dropWhile p).reverse

/-- `padLeft width fill t` puts copies of `fill` before `t` until it has `width` characters. -/
def padLeft (width : Nat) (fill : Char) (t : Text) : Text :=
  List.replicate (width - t.length) fill ++ t

end Text

end TrackedSections
