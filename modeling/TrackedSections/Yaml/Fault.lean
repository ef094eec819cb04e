import TrackedSections.Text.Quoted
import TrackedSections.Text.Utf8

/-!
# What can be wrong with a YAML document

Most faults are faults of form, which are not told apart. The others come from octets that are no
text and from scalars: a scalar whose shape or tag promises a number, a truth value or a point in
time may fail to be one.
-/

namespace TrackedSections.Yaml

/-- What is wrong with a point in time. -/
inductive TimeFault where
  | year
  | month
  | day
  | hour
  | minute
  | second
  /-- The distance from universal time is a day or more, here in seconds. -/
  | offset (seconds : Int)
  deriving DecidableEq, Repr

/-- Why a document has no value. -/
inductive Fault where
  /-- It breaks the rules of form. -/
  | malformed
  /-- The text is no numeral in the base. -/
  | notInteger (base : Nat) (t : Text)
  /-- The integer has no digits at all. -/
  | emptyNumber
  /-- A numeral is too long. -/
  | numeral (fault : Text.NumeralFault)
  /-- The text is no real number. -/
  | notReal (t : Text)
  /-- The text is no truth value. -/
  | notBoolean (t : Text)
  /-- The text is no point in time. -/
  | notTime
  /-- There is no such point in time. -/
  | time (fault : TimeFault)
  /-- An escape names a number that is no code point. -/
  | noCodePoint
  /-- An escape names a number that is no machine integer. -/
  | hugeCodePoint
  /-- A real number written in sixties goes beyond the doubles. -/
  | tooLarge
  /-- A mapping stands for a point in time. -/
  | timeOfMapping
  /-- A scalar is given by a mapping that is its own default. -/
  | endless
  /-- Octets of the document are no text. -/
  | undecodable (fault : Text.Utf8.Fault)
  deriving DecidableEq, Repr

/-- A span of time written as days and seconds. -/
def spanText (seconds : Int) : Text :=
  let days := Int.fdiv seconds 86400
  let rest := Int.fmod seconds 86400
  let dayPart := "days=".toList ++ Text.ofInt days
  let secondPart := "seconds=".toList ++ Text.ofInt rest
  let fields :=
    if days = 0 ∧ rest = 0 then ['0']
    else if days = 0 then secondPart
    else if rest = 0 then dayPart
    else dayPart ++ ", ".toList ++ secondPart
  "datetime.timedelta(".toList ++ fields ++ [')']

/-- The words for a fault of time. -/
def TimeFault.message : TimeFault → Text
  | .year => "year 0 is out of range".toList
  | .month => "month must be in 1..12".toList
  | .day => "day is out of range for month".toList
  | .hour => "hour must be in 0..23".toList
  | .minute => "minute must be in 0..59".toList
  | .second => "second must be in 0..59".toList
  | .offset seconds =>
    "offset must be a timedelta strictly between -timedelta(hours=24) and ".toList ++
      "timedelta(hours=24), not ".toList ++ spanText seconds ++ ['.']

/-- The words for a fault. A fault of form is worded where the document is known. -/
def Fault.message : Fault → Text
  | .malformed => []
  | .notInteger base t =>
    "invalid literal for int() with base ".toList ++ Text.ofNat base ++ ": ".toList ++
      t.quoted.take 200
  | .emptyNumber => "string index out of range".toList
  | .numeral fault => fault.message
  | .notReal t => "could not convert string to float: ".toList ++ t.quoted
  | .notBoolean t => t.quoted
  | .notTime => "'NoneType' object has no attribute 'groupdict'".toList
  | .time fault => fault.message
  | .noCodePoint => "chr() arg not in range(0x110000)".toList
  | .hugeCodePoint => "Python int too large to convert to C int".toList
  | .tooLarge => "int too large to convert to float".toList
  | .timeOfMapping => "expected string or bytes-like object, got 'list'".toList
  | .endless => "maximum recursion depth exceeded".toList
  | .undecodable fault => fault.message

end TrackedSections.Yaml
