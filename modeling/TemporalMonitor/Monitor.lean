import TemporalMonitor.Observer

/-!
# Monitors

A monitor holds the oracle that every run starts from, and the statistics of its latest batch. A
batch resets the statistics, performs one item after the other, and ends at the first item whose
source fails. How an item is performed is left open (`Monitor.batch`): by running a source
(`Monitor.run`), or by running it with an observer, whose world is threaded through the batch
(`Monitor.traces`).
-/

namespace TemporalMonitor

/-- What performing an item of a batch gives. -/
structure Performance (ε : Type) where
  /-- The outcome of its run, or the failure of its source. -/
  outcome : Except ε Outcome
  /-- The records made. -/
  log : Log

/-- What a batch gives. -/
structure Batch (ε : Type) where
  /-- The statistics at the end. -/
  statistics : Statistics
  /-- The position of the item that failed, and its failure. -/
  failure : Option (Nat × ε)
  /-- The records made. -/
  log : Log

/-- The properties that are monitored, and the counts of the latest batch. -/
structure Monitor where
  /-- The oracle every run starts from. -/
  oracle : Oracle
  /-- The counts of the latest batch. -/
  statistics : Statistics := {}

namespace Monitor

variable {α ε ω : Type}

/-- Performs the items from position `i` on, until one fails. -/
def performAll (perform : Statistics → α → ω → Performance ε × ω) :
    (i : Nat) → Statistics → List α → ω → Batch ε × ω
  | _, stats, [], world => (⟨stats, none, []⟩, world)
  | i, stats, a :: items, world =>
    match perform stats a world with
    | (⟨.error e, log⟩, world) => (⟨stats, some (i, e), log⟩, world)
    | (⟨.ok outcome, log⟩, world) =>
      let stats := stats.record outcome
      let (b, world) := performAll perform (i + 1) stats items world
      ({ b with log := log ++ stats.recordLog outcome :: b.log }, world)

/-- A batch of items. The word names the activity in the log. -/
def batch (m : Monitor) (word : String) (perform : Statistics → α → ω → Performance ε × ω)
    (items : List α) (world : ω) : Batch ε × ω :=
  let (b, world) := performAll perform 0 m.statistics.reset items world
  ({ b with
      statistics := { b.statistics with running := false }
      log := .plain .info (word ++ " starting") :: b.log ++
        [.timed .info (word ++ " time elapsed: "), .plain .info (word ++ " terminating")] },
    world)

/-- Performing a source by the run that stops as soon as every property is settled. -/
def performSource (m : Monitor) (source : Source ε) : Performance ε :=
  let r := source.experiment m.oracle
  ⟨r.outcome, r.log source⟩

/-- Monitors the sources one after the other. -/
def run (m : Monitor) (sources : List (Source ε)) : Batch ε :=
  (m.batch "monitoring" (fun _ source world ↦ (m.performSource source, world)) sources ()).1

/-- Monitors the sources to the end of each trace, each with an observer. -/
def traces (m : Monitor) (items : List (Observer ω × (ω → Source ε))) (world : ω) : Batch ε × ω :=
  m.batch "tracing"
    (fun stats (observer, source) world ↦
      let (outcome, log, world) := observedRun m.oracle observer source stats world
      (⟨outcome, log⟩, world))
    items world

/-- The monitor after a batch. -/
def afterBatch (m : Monitor) (b : Batch ε) : Monitor :=
  { m with statistics := b.statistics }

end Monitor

end TemporalMonitor
