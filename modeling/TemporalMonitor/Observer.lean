import TemporalMonitor.Statistics

/-!
# Observers of runs

An observer is told the events of a run while it goes on, and acts on a world of its own, such as a
tree of files. It is told that the run is about to start before the source is opened, so the source
is looked up in the world that `init` leaves behind. Each event may add records to the log, at the
place where it occurs.
-/

namespace TemporalMonitor

/-- Someone who is told the events of a run and acts on the world `ω`. -/
structure Observer (ω : Type) where
  /-- The run is about to start; the statistics are those of the batch so far. -/
  init : Statistics → ω → Log × ω
  /-- A state was judged. -/
  step : Judged → ω → Log × ω
  /-- The run has ended with an outcome. -/
  finalize : Outcome → ω → Log × ω
  /-- The source has failed, and no event will follow. -/
  abandon : ω → ω := id

namespace Observer

variable {ω ε : Type}

/-- The observer that does nothing. -/
def silent : Observer ω where
  init _ world := ([], world)
  step _ world := ([], world)
  finalize _ world := ([], world)

/-- Tells the states judged, one after the other; the records of judging a state come first. -/
def tellSteps (observer : Observer ω) : List Judged → ω → Log × ω
  | [], world => ([], world)
  | j :: judged, world =>
    let (log, world) := observer.step j world
    let (logs, world) := observer.tellSteps judged world
    (j.log ++ log ++ logs, world)

/-- Tells how the run ended. -/
def tellEnd (observer : Observer ω) (outcome : Except ε Outcome) (world : ω) : Log × ω :=
  match outcome with
  | .ok o => observer.finalize o world
  | .error _ => ([], observer.abandon world)

end Observer

/-- A run to the end of the trace, from the oracle `o`, over the source found in the world, with an
observer who is told of it: the outcome, all records in order, and the world afterwards. -/
def observedRun {ω ε : Type} (o : Oracle) (observer : Observer ω) (source : ω → Source ε)
    (stats : Statistics) (world : ω) : Except ε Outcome × Log × ω :=
  let (initLog, world) := observer.init stats world
  let src := source world
  let r := src.trace o
  let (stepLog, world) := observer.tellSteps r.judged world
  let (endLog, world) := observer.tellEnd r.outcome world
  (r.outcome,
    initLog ++ .plain .trace "new run starting" :: src.opening ++ stepLog ++ r.closing ++ endLog,
    world)

end TemporalMonitor
