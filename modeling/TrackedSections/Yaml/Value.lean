import TrackedSections.Text.Double
import TrackedSections.Text.Quoted
import TrackedSections.Yaml.Graph

/-!
# Values of a YAML document

A value is what a node stands for. A collection is known by the number of its node only, so that it may
lie inside itself; `Contents` tells what each collection holds. A mapping has each key once: two
keys are the same when they are equal as numbers or as values of one kind, and the first of them
keeps its place.
-/

namespace TrackedSections.Yaml

/-- A point in time: a date, a time of day and millionths of a second. -/
structure Moment where
  year : Nat
  month : Nat
  day : Nat
  hour : Nat
  minute : Nat
  second : Nat
  fraction : Nat
  /-- The distance from universal time in seconds, if it is known. -/
  offset : Option Int
  deriving DecidableEq, Repr

/-- A value. -/
inductive Value where
  | null
  | boolean (b : Bool)
  | integer (n : Int)
  | real (x : Float)
  /-- What is no number: the one that has a name, or the one that a scalar made. -/
  | notNumber (maker : Option NodeId)
  | text (t : Text)
  | date (year month day : Nat)
  | moment (m : Moment)
  | octets (bs : Bytes)
  | collection (id : NodeId)

/-- Entries of a mapping. -/
abbrev Entries := List (Value × Value)

/-- What a collection holds. -/
inductive Collection where
  | sequence (items : List Value)
  | mapping (entries : Entries)
  | set (items : List Value)
  | pairs (entries : Entries)

/-- The days of a month. -/
def daysOf (year month : Nat) : Nat :=
  if month = 2 then
    if year % 4 = 0 ∧ (year % 100 ≠ 0 ∨ year % 400 = 0) then 29 else 28
  else if month = 4 ∨ month = 6 ∨ month = 9 ∨ month = 11 then 30
  else 31

/-- The number of days from the first of a calendar without gaps to a date. -/
def dayNumber (year month day : Nat) : Nat :=
  let before := year - 1
  let months := (List.range (month - 1)).foldl (fun days m => days + daysOf year (m + 1)) 0
  before * 365 + before / 4 - before / 100 + before / 400 + months + day

namespace Moment

/-- The seconds of a point in time on its own clock. -/
def seconds (m : Moment) : Int :=
  ((dayNumber m.year m.month m.day * 24 + m.hour) * 60 + m.minute) * 60 + m.second

/-- Whether two points in time are the same: one moment of universal time, or one reading of clocks
whose distance from universal time is not known. -/
def isSame (m n : Moment) : Bool :=
  m.fraction = n.fraction &&
    match m.offset, n.offset with
    | some a, some b => m.seconds - a = n.seconds - b
    | none, none => m.seconds = n.seconds
    | _, _ => false

end Moment

namespace Value

/-- A truth value as a number. -/
def truthNumber (b : Bool) : Int := if b then 1 else 0

/-- The whole number that a value counts as among keys. -/
def whole? : Value → Option Int
  | .boolean b => some (truthNumber b)
  | .integer n => some n
  | .real x => Text.Double.integer? x
  | _ => none

/-- `sameKey a b` holds when `a` and `b` are one key of a mapping. -/
def sameKey (a b : Value) : Bool :=
  match a.whole?, b.whole? with
  | some m, some n => m = n
  | _, _ =>
    match a, b with
    | .null, .null => true
    | .real x, .real y => x == y
    | .notNumber i, .notNumber j => i = j
    | .text t, .text u => t = u
    | .date y m d, .date y' m' d' => y = y' && m = m' && d = d'
    | .moment m, .moment n => m.isSame n
    | .octets x, .octets y => x = y
    | _, _ => false

/-- Whether a value may be a key. -/
def isKey : Value → Bool
  | .collection _ => false
  | _ => true

/-- `insert key value entries` sets the value of a key. -/
def insert (key value : Value) : Entries → Entries
  | [] => [(key, value)]
  | (other, old) :: rest =>
    if sameKey other key then (other, value) :: rest else (other, old) :: insert key value rest

/-- The value of a text key. -/
def lookup? (key : Text) : Entries → Option Value
  | [] => none
  | (other, value) :: rest => if sameKey other (.text key) then some value else lookup? key rest

end Value

/-! ## Dates and octets in text -/

/-- A number with at least `n` digits. -/
def padded (n value : Nat) : Text := Text.padLeft n '0' (Text.ofNat value)

/-- A distance from universal time as hours and minutes with a sign. -/
def offsetText (seconds : Int) : Text :=
  let minutes := seconds.natAbs / 60
  (if seconds < 0 then '-' else '+') :: padded 2 (minutes / 60) ++ ':' :: padded 2 (minutes % 60)

/-- A date with dashes. -/
def dateText (year month day : Nat) : Text :=
  padded 4 year ++ '-' :: padded 2 month ++ '-' :: padded 2 day

/-- A point in time: date, time of day, millionths of a second if there are any, and the distance from
universal time if it is given. -/
def Moment.text (m : Moment) : Text :=
  let fraction := if m.fraction = 0 then [] else '.' :: padded 6 m.fraction
  dateText m.year m.month m.day ++ ' ' :: padded 2 m.hour ++ ':' :: padded 2 m.minute ++
    ':' :: padded 2 m.second ++ fraction ++ (m.offset.map offsetText).getD []

/-- Octets between quotes. -/
def octetsDisplay (bs : Bytes) : Text :=
  let mark : Char := if 0x27 ∈ bs ∧ 0x22 ∉ bs then '"' else '\''
  let escape (b : UInt8) : Text :=
    let c := Char.ofNat b.toNat
    if c = mark ∨ c = '\\' then ['\\', c]
    else if c = '\t' then ['\\', 't']
    else if c = '\n' then ['\\', 'n']
    else if c = '\r' then ['\\', 'r']
    else if ' ' ≤ c ∧ c ≤ '~' then [c]
    else '\\' :: 'x' :: Text.padLeft 2 '0' (Text.hexadecimal b.toNat)
  'b' :: mark :: bs.flatMap escape ++ [mark]

/-- A distance from universal time inside another value. -/
def offsetDisplay (seconds : Int) : Text :=
  if seconds = 0 then "datetime.timezone.utc".toList
  else
    let days := Int.fdiv seconds 86400
    let rest := Int.fmod seconds 86400
    let dayPart := if days = 0 then [] else "days=".toList ++ Text.ofInt days
    let joint := if days = 0 ∨ rest = 0 then [] else ", ".toList
    let restPart := if rest = 0 then [] else "seconds=".toList ++ Text.ofInt rest
    "datetime.timezone(datetime.timedelta(".toList ++ dayPart ++ joint ++ restPart ++ "))".toList

/-- A date inside another value. -/
def dateDisplay (year month day : Nat) : Text :=
  "datetime.date(".toList ++
    Text.joinWith ", ".toList ([year, month, day].map Text.ofNat) ++ [')']

/-- A point in time inside another value. -/
def Moment.display (m : Moment) : Text :=
  let small :=
    if m.fraction ≠ 0 then [m.second, m.fraction] else if m.second ≠ 0 then [m.second] else []
  let numbers := ([m.year, m.month, m.day, m.hour, m.minute] ++ small).map Text.ofNat
  let zone := match m.offset with
    | none => []
    | some seconds => ", tzinfo=".toList ++ offsetDisplay seconds
  "datetime.datetime(".toList ++ Text.joinWith ", ".toList numbers ++ zone ++ [')']

end TrackedSections.Yaml
