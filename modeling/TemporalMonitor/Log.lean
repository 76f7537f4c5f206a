import TemporalMonitor.Binary64
import TemporalMonitor.Text.Digits

/-!
# Log records

What the monitor reports about its own work: records of a level and a text, in the order in which
they were made.

Some records end with a duration. How long something takes is not known where the record is made,
and depends on nothing that the monitor computes; the duration is put in when the record is written
out (`LogRecord.render`).
-/

namespace TemporalMonitor

/-! ### Durations -/

/-- A duration, in the forms in which it is told. The default stands for one that is left open. -/
structure Elapsed where
  /-- The text of the duration. -/
  text : String := "<t>"
  /-- The whole seconds. -/
  seconds : Nat := 0
  /-- The nanoseconds beyond them. -/
  nanoseconds : Nat := 0
  deriving DecidableEq, Repr

namespace Elapsed

/-- The largest unit that is not above the given number of nanoseconds: its length in nanoseconds,
and its sign. -/
def unit (n : Nat) : Nat × String :=
  if 1000000000 ≤ n then (1000000000, "s")
  else if 1000000 ≤ n then (1000000, "ms")
  else if 1000 ≤ n then (1000, "µs")
  else (1, "ns")

/-- A number of nanoseconds. Its text has two places, and a half goes to the even neighbour. -/
def ofNanoseconds (n : Nat) : Elapsed where
  text :=
    let (length, sign) := unit n
    let hundredths := Binary64.roundDiv (n * 100) length
    (hundredths / 100).repr ++ "." ++ Text.padded 2 (hundredths % 100) ++ sign
  seconds := n / 1000000000
  nanoseconds := n % 1000000000

example : (ofNanoseconds 1500000000).text = "1.50s" ∧ (ofNanoseconds 2345).text = "2.34µs" := by
  decide +kernel

end Elapsed

/-! ### Records -/

/-- The weight of a log record. -/
inductive LogLevel where
  | error
  | warn
  | info
  | debug
  | trace
  deriving DecidableEq, Repr

/-- The name of a level. -/
def LogLevel.name : LogLevel → String
  | error => "ERROR"
  | warn => "WARN"
  | info => "INFO"
  | debug => "DEBUG"
  | trace => "TRACE"

/-- A log record. -/
structure LogRecord where
  /-- How weighty the record is. -/
  level : LogLevel
  /-- What it says. -/
  text : String
  /-- Whether a duration stands behind the text. -/
  isTimed : Bool
  deriving DecidableEq, Repr

/-- Log records in the order in which they were made. -/
abbrev Log := List LogRecord

namespace LogRecord

/-- The record of a text. -/
abbrev plain (level : LogLevel) (text : String) : LogRecord := ⟨level, text, false⟩

/-- The record of a text and a duration. -/
abbrev timed (level : LogLevel) (text : String) : LogRecord := ⟨level, text, true⟩

/-- A record on one line, with the given duration where it has one. -/
def render (r : LogRecord) (elapsed : Elapsed := {}) : String :=
  r.level.name ++ " " ++ r.text ++ if r.isTimed then elapsed.text else ""

end LogRecord

end TemporalMonitor
