import TrackedSections.Text.Utf8

/-!
# Digests

A section is tracked by the SHA-256 digest of its content, written in upper-case hexadecimal. The
message is padded to whole blocks of 64 octets, and each block updates a state of eight words
through 64 rounds.
-/

namespace TrackedSections

namespace Digest

/-- A word is 32 bits, added modulo 2 ^ 32. -/
abbrev Word := UInt32

/-- The constants of the 64 rounds. -/
def roundConstants : List Word :=
  [0x428a2f98, 0x71374491, 0xb5c0fbcf, 0xe9b5dba5, 0x3956c25b, 0x59f111f1, 0x923f82a4, 0xab1c5ed5,
   0xd807aa98, 0x12835b01, 0x243185be, 0x550c7dc3, 0x72be5d74, 0x80deb1fe, 0x9bdc06a7, 0xc19bf174,
   0xe49b69c1, 0xefbe4786, 0x0fc19dc6, 0x240ca1cc, 0x2de92c6f, 0x4a7484aa, 0x5cb0a9dc, 0x76f988da,
   0x983e5152, 0xa831c66d, 0xb00327c8, 0xbf597fc7, 0xc6e00bf3, 0xd5a79147, 0x06ca6351, 0x14292967,
   0x27b70a85, 0x2e1b2138, 0x4d2c6dfc, 0x53380d13, 0x650a7354, 0x766a0abb, 0x81c2c92e, 0x92722c85,
   0xa2bfe8a1, 0xa81a664b, 0xc24b8b70, 0xc76c51a3, 0xd192e819, 0xd6990624, 0xf40e3585, 0x106aa070,
   0x19a4c116, 0x1e376c08, 0x2748774c, 0x34b0bcb5, 0x391c0cb3, 0x4ed8aa4a, 0x5b9cca4f, 0x682e6ff3,
   0x748f82ee, 0x78a5636f, 0x84c87814, 0x8cc70208, 0x90befffa, 0xa4506ceb, 0xbef9a3f7, 0xc67178f2]

/-- The eight words of the state. -/
structure State where
  a : Word
  b : Word
  c : Word
  d : Word
  e : Word
  f : Word
  g : Word
  h : Word

/-- The state before the first block. -/
def State.initial : State :=
  ⟨0x6a09e667, 0xbb67ae85, 0x3c6ef372, 0xa54ff53a,
   0x510e527f, 0x9b05688c, 0x1f83d9ab, 0x5be0cd19⟩

/-- `rotate n x` moves the bits of `x` to the right by `n`, those that fall out to the left end. -/
def rotate (n x : Word) : Word := (x >>> n) ||| (x <<< (32 - n))

/-- One round with word `w` of the schedule and round constant `k`. -/
def State.round (s : State) (w k : Word) : State :=
  let mix := rotate 6 s.e ^^^ rotate 11 s.e ^^^ rotate 25 s.e
  let choice := (s.e &&& s.f) ^^^ (~~~s.e &&& s.g)
  let first := s.h + mix + choice + k + w
  let spread := rotate 2 s.a ^^^ rotate 13 s.a ^^^ rotate 22 s.a
  let majority := (s.a &&& s.b) ^^^ (s.a &&& s.c) ^^^ (s.b &&& s.c)
  ⟨first + spread + majority, s.a, s.b, s.c, s.d + first, s.e, s.f, s.g⟩

/-- The wordwise sum of two states. -/
def State.add (s t : State) : State :=
  ⟨s.a + t.a, s.b + t.b, s.c + t.c, s.d + t.d, s.e + t.e, s.f + t.f, s.g + t.g, s.h + t.h⟩

/-- The word with four octets, the most significant one first. -/
def wordOf (a b c d : UInt8) : Word :=
  (a.toUInt32 <<< 24) ||| (b.toUInt32 <<< 16) ||| (c.toUInt32 <<< 8) ||| d.toUInt32

/-- The words of a block. -/
def wordsOf : Bytes → List Word
  | a :: b :: c :: d :: rest => wordOf a b c d :: wordsOf rest
  | _ => []

/-- `extend n latest` adds `n` words to the schedule whose words so far, the latest first, are
`latest`. -/
def extend : Nat → List Word → List Word
  | 0, latest => latest
  | n + 1, latest =>
    let older := latest.getD 14 0
    let newer := latest.getD 1 0
    let low := rotate 7 older ^^^ rotate 18 older ^^^ (older >>> 3)
    let high := rotate 17 newer ^^^ rotate 19 newer ^^^ (newer >>> 10)
    extend n ((high + latest.getD 6 0 + low + latest.getD 15 0) :: latest)

/-- The 64 words of the schedule of a block. -/
def schedule (block : Bytes) : List Word := (extend 48 (wordsOf block).reverse).reverse

/-- `s.absorb block` is the state after a block. -/
def State.absorb (s : State) (block : Bytes) : State :=
  s.add (((schedule block).zip roundConstants).foldl (fun t (w, k) => t.round w k) s)

/-- The state after all whole blocks of a message. -/
def absorbAll (s : State) (message : Bytes) : State :=
  if 64 ≤ message.length then absorbAll (s.absorb (message.take 64)) (message.drop 64) else s
termination_by message.length
decreasing_by simp only [List.length_drop]; omega

/-- The `n` least significant octets of a number, the most significant one first. -/
def octetsOf : Nat → Nat → Bytes
  | 0, _ => []
  | n + 1, value => octetsOf n (value / 256) ++ [UInt8.ofNat (value % 256)]

/-- The message with a single bit, zeros, and its length in bits, which fill its last block. -/
def padded (message : Bytes) : Bytes :=
  let zeros := (119 - message.length % 64) % 64
  message ++ 0x80 :: List.replicate zeros 0 ++ octetsOf 8 (message.length * 8)

/-- The words of a state in order. -/
def State.words (s : State) : List Word := [s.a, s.b, s.c, s.d, s.e, s.f, s.g, s.h]

/-- The 32 octets of the digest of a message. -/
def octets (message : Bytes) : Bytes :=
  (absorbAll State.initial (padded message)).words.flatMap fun w => octetsOf 4 w.toNat

/-- The upper-case digit of a number below 16. -/
def upperDigit (n : Nat) : Char := if n < 10 then Char.ofNat (0x30 + n) else Char.ofNat (0x37 + n)

/-- Two upper-case hexadecimal digits for each octet. -/
def upperHex (bs : Bytes) : Text :=
  bs.flatMap fun b => [upperDigit (b.toNat / 16), upperDigit (b.toNat % 16)]

/-- The digest of octets as it is written in markers. -/
def ofBytes (message : Bytes) : Text := upperHex (octets message)

/-- The digest of a text is that of its octets. -/
def ofText (t : Text) : Text := ofBytes t.encode

end Digest

end TrackedSections
