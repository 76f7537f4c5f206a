import TemporalMonitor.Binary64.Fraction
import TemporalMonitor.Json.Value
import TemporalMonitor.Monitor

/-!
# Reports

What is told at the end of a verification: how many runs there were, by their outcome, and how often
each property failed. Incomplete runs do not count towards the rates of success; without a run that
counts a rate is not a number.

A property that is monitored several times has one entry, and entries are in the order of the names.
-/

namespace TemporalMonitor

/-- A rate of success; `none` if there is nothing to count. -/
abbrev Rate := Option Binary64.Fraction

/-- The share of `n` in `total`. -/
def Rate.ofCounts (n total : Nat) : Rate :=
  if total = 0 then none else some (.ofQuotient n total)

/-- A rate with four places. -/
def Rate.text : Rate → String
  | some x => x.fixed 4
  | none => "NaN"

/-- A rate as a JSON value. -/
def Rate.toJson : Rate → Json.Value
  | some x => .number x.text
  | none => .null

/-- Sets the entry of a name in a list that is ordered by names. -/
def setEntry {α : Type} (name : String) (a : α) : List (String × α) → List (String × α)
  | [] => [(name, a)]
  | (other, b) :: entries =>
    if name < other then (name, a) :: (other, b) :: entries
    else if name = other then (name, a) :: entries
    else (other, b) :: setEntry name a entries

/-- The counts of the properties, ordered by name. Where there are fewer counts than names the
others are zero; the last count of a name is the one that is kept. -/
def countsByName : (names : List String) → (counts : List UInt32) → List (String × UInt32) →
    List (String × UInt32)
  | [], _, entries => entries
  | name :: names, [], entries => countsByName names [] (setEntry name 0 entries)
  | name :: names, n :: counts, entries => countsByName names counts (setEntry name n entries)

/-- The result of a verification. -/
structure Report where
  /-- The name of the properties. -/
  properties : String
  /-- The number of traces. -/
  traces : Nat
  /-- Runs that satisfied every property. -/
  successes : UInt32
  /-- Runs that violated a property. -/
  failures : UInt32
  /-- Runs that did not count. -/
  incomplete : UInt32
  /-- For each property the runs that violated it, ordered by name. -/
  propertyFailures : List (String × UInt32)
  deriving DecidableEq, Repr

namespace Report

/-- The report on a batch. -/
def ofStatistics (properties : String) (traces : Nat) (monitored : List String) (s : Statistics) :
    Report where
  properties := properties
  traces := traces
  successes := s.successes
  failures := s.failures
  incomplete := s.incomplete
  propertyFailures := countsByName monitored s.violations []

/-- The runs that count. -/
def completed (r : Report) : UInt32 := r.successes + r.failures

/-- All runs. -/
def runs (r : Report) : UInt32 := r.completed + r.incomplete

/-- The rate of success of all properties together. -/
def rate (r : Report) : Rate := .ofCounts r.successes.toNat r.completed.toNat

/-- The line about a property. -/
def propertyLine (r : Report) (name : String) (violations : UInt32) : String :=
  let rate := Rate.ofCounts (r.completed.toNat - violations.toNat) r.completed.toNat
  name ++ " success rate: " ++ rate.text ++
    if violations = 0 then "\n" else " (" ++ violations.toNat.repr ++ " fails)\n"

/-- The report as a text, on a batch that took the given time. -/
def render (r : Report) (elapsed : Elapsed) : String :=
  "LTLMON results for " ++ r.properties ++ " (" ++ r.traces.repr ++ " traces in " ++
      elapsed.text ++ ")\n" ++
    "Completed " ++ r.runs.toNat.repr ++ " runs with " ++ r.successes.toNat.repr ++
      " successes, " ++ r.failures.toNat.repr ++ " failures, " ++ r.incomplete.toNat.repr ++
      " incomplete\n" ++
    String.join (r.propertyFailures.map fun (name, n) ↦ r.propertyLine name n) ++
    "Overall success rate: " ++ r.rate.text

/-- The report as a JSON value, on a batch that took the given time. -/
def toJson (r : Report) (elapsed : Elapsed) : Json.Value :=
  .object [
    ("properties", .string r.properties),
    ("traces", .ofNat r.traces),
    ("duration",
      .object [("secs", .ofNat elapsed.seconds), ("nanos", .ofNat elapsed.nanoseconds)]),
    ("rate", r.rate.toJson),
    ("runs", .ofNat r.runs.toNat),
    ("successes", .ofNat r.successes.toNat),
    ("failures", .ofNat r.failures.toNat),
    ("incomplete", .ofNat r.incomplete.toNat),
    ("property_failures",
      .object (r.propertyFailures.map fun (name, n) ↦ (name, .ofNat n.toNat)))]

end Report

end TemporalMonitor
