import TemporalMonitor.Run

/-!
# Statistics of a batch

Counts of the runs of a batch by their outcome, and for each guarantee the number of runs that
violated it. Counters have 32 bits and wrap around.

Recording an outcome happens in atomic effects: a success or an incomplete run is one effect, while
a failed run is counted first and its violations are added by a second effect. Runs that are
recorded side by side may interleave their effects.
-/

namespace TemporalMonitor

/-- The counts of a batch. -/
structure Statistics where
  /-- Whether the batch is still going on. -/
  running : Bool := false
  /-- Verified runs that satisfied every guarantee. -/
  successes : UInt32 := 0
  /-- Verified runs that violated a guarantee. -/
  failures : UInt32 := 0
  /-- Runs that did not count. -/
  incomplete : UInt32 := 0
  /-- For each guarantee the runs that violated it; empty before the first failed run. -/
  violations : List UInt32 := []
  deriving DecidableEq, Repr

/-- Counts one more violation of each guarantee that is false, from zero where there is no count. -/
def addViolations : (guarantees : List Bool) → (counts : List UInt32) → List UInt32
  | [], counts => counts
  | g :: gs, [] => (if g then 0 else 1) :: addViolations gs []
  | g :: gs, n :: counts => (if g then n else n + 1) :: addViolations gs counts

/-- An atomic change of the counts. -/
inductive Effect where
  | success
  | failure
  | violations (guarantees : List Bool)
  | incomplete
  deriving DecidableEq, Repr

/-- The counts after an effect. -/
def Effect.apply : Effect → Statistics → Statistics
  | success, s => { s with successes := s.successes + 1 }
  | failure, s => { s with failures := s.failures + 1 }
  | violations gs, s => { s with violations := addViolations gs s.violations }
  | incomplete, s => { s with incomplete := s.incomplete + 1 }

/-- A run succeeds if it counts and satisfies every guarantee. -/
def Outcome.isSuccess : Outcome → Bool
  | .verified gs => gs.all (·)
  | .incomplete => false

/-- The effects of recording an outcome, in order. -/
def Outcome.effects : Outcome → List Effect
  | .verified gs => if gs.all (·) then [.success] else [.failure, .violations gs]
  | .incomplete => [.incomplete]

namespace Statistics

/-- The number of runs recorded. -/
def runs (s : Statistics) : UInt32 := s.successes + s.failures + s.incomplete

/-- The statistics at the beginning of a batch: one count after the other is set back. -/
def reset (s : Statistics) : Statistics :=
  let s := { s with successes := 0 }
  let s := { s with failures := 0 }
  let s := { s with incomplete := 0 }
  let s := { s with violations := [] }
  { s with running := true }

/-- Nothing is left of an earlier batch. -/
theorem reset_eq (s : Statistics) : s.reset = { running := true } := rfl

/-- The counts after recording an outcome. -/
def record (s : Statistics) (outcome : Outcome) : Statistics :=
  outcome.effects.foldl (fun s e ↦ e.apply s) s

/-- The record of recording an outcome, where `s` are the counts afterwards. -/
def recordLog (s : Statistics) : Outcome → LogRecord
  | .verified gs =>
    if gs.all (·) then .plain .trace ("runs: " ++ s.successes.toNat.repr ++ " successes")
    else .plain .trace ("runs: " ++ s.failures.toNat.repr ++ " failures")
  | .incomplete => .plain .trace ("runs: " ++ s.incomplete.toNat.repr ++ " incomplete")

end Statistics

end TemporalMonitor
