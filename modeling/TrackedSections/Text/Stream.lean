import TrackedSections.Text.Utf8

/-!
# Text that is read in portions

A long file is not decoded at once. A `Stream` takes a portion of its octets whenever it has fewer
characters ready than are asked for, so a fault late in the file comes up late. The positions in a
fault are counted from the octets that were left over before the portion. Every line end is given
as a line feed.
-/

namespace TrackedSections.Text

/-- A file of which some portions are decoded. -/
structure Stream where
  /-- The octets that are not taken yet. -/
  octets : Bytes
  /-- The octets taken last that begin a character without completing it. -/
  begun : Bytes
  /-- Whether a carriage return was taken last, which may belong to a line feed. -/
  heldReturn : Bool
  /-- The characters that are decoded and not given out. -/
  ready : Text
  /-- How many octets the last portion had. -/
  lastOctets : Nat
  /-- How many characters the last portion gave. -/
  lastCharacters : Nat

namespace Stream

/-- A file before anything of it is read. -/
def start (octets : Bytes) : Stream := ⟨octets, [], false, [], 0, 0⟩

/-- The least number of octets in a portion. -/
def leastPortion : Nat := 8192

/-- The number of octets to take when some characters are wanted: as many as characters like those of
the last portion need. -/
def portionFor (s : Stream) (wanted : Nat) : Nat :=
  max leastPortion (wanted * s.lastOctets / s.lastCharacters)

/-- Decodes the next portion. The result tells whether the file is at its end. -/
def advance (s : Stream) (wanted : Nat) : Except Utf8.Fault (Bool × Stream) := do
  let size := s.portionFor wanted
  let portion := s.octets.take size
  let isLast := portion = []
  let (t, begun) ←
    if isLast then (Utf8.decodeFrom 0 s.begun).map fun t => (t, [])
    else Utf8.decodePartFrom 0 (s.begun ++ portion)
  let joinsReturn := s.heldReturn && (isLast || t ≠ [])
  let t := if joinsReturn then '\r' :: t else t
  let holdsReturn := !isLast && t.getLast? = some '\r'
  let t := normalizeNewlines (if holdsReturn then t.dropLast else t)
  let heldReturn := holdsReturn || (s.heldReturn && !joinsReturn)
  pure (isLast && t = [],
    ⟨s.octets.drop size, begun, heldReturn, s.ready ++ t, portion.length, t.length⟩)

/-- Reads up to `count` characters, fewer only at the end. At most `fuel` portions are decoded. -/
def read (count : Nat) : (fuel : Nat) → Stream → Except Utf8.Fault (Text × Stream)
  | 0, s => .ok (s.ready, { s with ready := [] })
  | fuel + 1, s => do
    if count ≤ s.ready.length then
      pure (s.ready.take count, { s with ready := s.ready.drop count })
    else
      let (isEnd, s) ← s.advance (count - s.ready.length)
      if isEnd then pure (s.ready, { s with ready := [] }) else read count fuel s

/-- The stretches of `count` characters in which the rest of a file is read, at most `fuel` of them,
and the fault that ends them. -/
def stretches (count : Nat) : (fuel : Nat) → Stream → List Text × Option Utf8.Fault
  | 0, _ => ([], none)
  | fuel + 1, s =>
    match s.read count (s.octets.length + 2) with
    | .error fault => ([], some fault)
    | .ok ([], _) => ([], none)
    | .ok (t, s) =>
      let (more, fault) := stretches count fuel s
      (t :: more, fault)

end Stream

/-- `stretches count bs` is the list of stretches of `count` characters in which a file with octets
`bs` is read, together with the fault that ends them. -/
def stretches (count : Nat) (bs : Bytes) : List Text × Option Utf8.Fault :=
  (Stream.start bs).stretches count (bs.length + 2)

end TrackedSections.Text
