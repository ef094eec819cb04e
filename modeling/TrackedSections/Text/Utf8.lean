import TrackedSections.Text.Numeral

/-!
# Text as octets

`encode` writes text in UTF-8. `decode` reads it and stops at the first octets that belong to no
character; the fault names their positions and what is wrong with them. `decodeReplacing` puts a
replacement character for each such stretch instead, and reads on after it. A stretch is as long as
the octets that some character begins with, so that no good character is lost.
-/

namespace TrackedSections.Text

namespace Utf8

/-- Why octets belong to no character. -/
inductive Reason where
  /-- The octet begins no character. -/
  | invalidStart
  /-- A character begins here, and the octet after those in the stretch cannot continue it. -/
  | invalidContinuation
  /-- A character begins here and the octets end before it does. -/
  | unexpectedEnd
  deriving DecidableEq, Repr

/-- The words for a reason. -/
def Reason.message : Reason → Text
  | .invalidStart => "invalid start byte".toList
  | .invalidContinuation => "invalid continuation byte".toList
  | .unexpectedEnd => "unexpected end of data".toList

/-- A stretch of octets that belongs to no character: its position, its first octet, how many octets
it has and what is wrong with it. -/
structure Fault where
  position : Nat
  octet : UInt8
  width : Nat
  reason : Reason
  deriving DecidableEq, Repr

/-- The message for a fault shows the octet when it is the only one. -/
def Fault.message (fault : Fault) : Text :=
  let place := if fault.width = 1 then
      "byte 0x".toList ++ padLeft 2 '0' (hexadecimal fault.octet.toNat) ++
        " in position ".toList ++ ofNat fault.position
    else
      "bytes in position ".toList ++ ofNat fault.position ++ "-".toList ++
        ofNat (fault.position + fault.width - 1)
  "'utf-8' codec can't decode ".toList ++ place ++ ": ".toList ++ fault.reason.message

/-- What the octets at one position hold: a character and the number of octets after its first, or a
stretch that belongs to no character, again with the number of octets after its first. -/
inductive Reading where
  | char (c : Char) (more : Nat)
  | fault (more : Nat) (reason : Reason)

/-- The octets that continue a character. -/
def isContinuation (b : UInt8) : Bool := 0x80 ≤ b && b < 0xc0

/-- The least and the greatest octet that may follow the first octet of a character. -/
def secondRange (first : UInt8) : UInt8 × UInt8 :=
  if first = 0xe0 then (0xa0, 0xbf)
  else if first = 0xed then (0x80, 0x9f)
  else if first = 0xf0 then (0x90, 0xbf)
  else if first = 0xf4 then (0x80, 0x8f)
  else (0x80, 0xbf)

/-- `maySecond first b` holds when `b` may follow the first octet `first`. -/
def maySecond (first b : UInt8) : Bool :=
  (secondRange first).1 ≤ b && b ≤ (secondRange first).2

/-- The value that a continuing octet adds to those before it. -/
def continueWith (value : Nat) (b : UInt8) : Nat := value * 64 + (b.toNat - 0x80)

/-- `readHead first rest` reads the character that begins with the octet `first` before `rest`. -/
def readHead (first : UInt8) (rest : Bytes) : Reading :=
  if first < 0x80 then .char (Char.ofNat first.toNat) 0
  else if first < 0xc2 || 0xf5 ≤ first then .fault 0 .invalidStart
  else match rest with
    | [] => .fault 0 .unexpectedEnd
    | second :: rest =>
      if !maySecond first second then .fault 0 .invalidContinuation
      else if first < 0xe0 then .char (Char.ofNat (continueWith (first.toNat - 0xc0) second)) 1
      else match rest with
        | [] => .fault 1 .unexpectedEnd
        | third :: rest =>
          if !isContinuation third then .fault 1 .invalidContinuation
          else if first < 0xf0 then
            .char (Char.ofNat
              (continueWith (continueWith (first.toNat - 0xe0) second) third)) 2
          else match rest with
            | [] => .fault 2 .unexpectedEnd
            | fourth :: _ =>
              if !isContinuation fourth then .fault 2 .invalidContinuation
              else .char (Char.ofNat (continueWith (continueWith
                (continueWith (first.toNat - 0xf0) second) third) fourth)) 3

/-- `decodeFrom position bs` reads the octets `bs`, which begin at `position` of some file. -/
def decodeFrom (position : Nat) : Bytes → Except Fault Text
  | [] => .ok []
  | first :: rest =>
    match readHead first rest with
    | .char c more => (decodeFrom (position + more + 1) (rest.drop more)).map (c :: ·)
    | .fault more reason => .error ⟨position, first, more + 1, reason⟩
termination_by bs => bs.length
decreasing_by simp only [List.length_drop, List.length_cons]; omega

/-- `decodePartFrom position bs` reads the octets `bs`, which begin at `position` and after which more
may come. It gives the text and the octets at the end that begin a character without completing
it. -/
def decodePartFrom (position : Nat) : Bytes → Except Fault (Text × Bytes)
  | [] => .ok ([], [])
  | first :: rest =>
    match readHead first rest with
    | .char c more =>
      (decodePartFrom (position + more + 1) (rest.drop more)).map fun (t, begun) => (c :: t, begun)
    | .fault _ .unexpectedEnd => .ok ([], first :: rest)
    | .fault more reason => .error ⟨position, first, more + 1, reason⟩
termination_by bs => bs.length
decreasing_by simp only [List.length_drop, List.length_cons]; omega

end Utf8

/-- `encode t` is the text `t` in UTF-8. -/
def encode (t : Text) : Bytes := t.flatMap String.utf8EncodeChar

/-- `decode bs` is the text with octets `bs`, or the first fault. -/
def decode (bs : Bytes) : Except Utf8.Fault Text := Utf8.decodeFrom 0 bs

/-- `decodeReplacing bs` is the text with octets `bs` when each faulty stretch counts as one
replacement character. -/
def decodeReplacing : Bytes → Text
  | [] => []
  | first :: rest =>
    match Utf8.readHead first rest with
    | .char c more => c :: decodeReplacing (rest.drop more)
    | .fault more _ => '\ufffd' :: decodeReplacing (rest.drop more)
termination_by bs => bs.length
decreasing_by all_goals simp only [List.length_drop, List.length_cons]; omega

end TrackedSections.Text
