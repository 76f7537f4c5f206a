import TemporalMonitor.Source

/-!
# Runs

A run judges the states of a source one after the other. Before a state is judged the next call is
made, since only its answer tells whether the state is the final one. A run ends

* with the failure of the source, if a call fails;
* incomplete, as soon as an assume is violated, or at the end of an empty trace, or at the end of a
  trace that leaves an assume open;
* verified otherwise: at the end of the trace or, for a run that may stop early, as soon as every
  property is settled.

A run remembers how many calls it made and the states it judged; from these follow its log and the
events an observer of the run is told.
-/

namespace TemporalMonitor

/-- The outcome of a run. -/
inductive Outcome where
  /-- The trace does not count: it is empty, or it does not satisfy an assume. -/
  | incomplete
  /-- The trace counts, and these are the values of the guarantees. -/
  | verified (guarantees : List Bool)
  deriving DecidableEq, Repr

/-- A state that was judged, with the oracle before it. -/
structure Judged where
  /-- The oracle before the state. -/
  before : Oracle
  /-- The state. -/
  state : State
  /-- Whether the state was known to be the last one. -/
  final : Bool
  deriving DecidableEq, Repr

namespace Judged

/-- The oracle after the state. -/
def after (j : Judged) : Oracle := j.before.update j.state j.final

/-- The records of judging the state. -/
def log (j : Judged) : Log := j.before.updateLog j.state j.final

end Judged

/-- What happened in a run over a source that may fail with an `ε`. -/
structure Run (ε : Type) where
  /-- The outcome, or the failure of the source. -/
  outcome : Except ε Outcome
  /-- How often the source was called. -/
  calls : Nat
  /-- The states judged, in order. -/
  judged : List Judged
  /-- The records made after the last state was judged. -/
  closing : Log

namespace Oracle

/-- The outcome with which a run stops before the end of the trace, and its record. -/
def stop? (early : Bool) (o : Oracle) : Option (Outcome × LogRecord) :=
  if o.violatesAssume then some (.incomplete, .plain .trace "run violated an assume")
  else if early && o.settled then
    some (.verified o.finalGuarantees, .plain .trace "run complete early")
  else none

/-- The outcome at the end of the trace, and its records. -/
def conclude (o : Oracle) : Outcome × Log :=
  if o.finalAssumes.all (·) then (.verified o.finalGuarantees, [.plain .trace "run complete"])
  else (.incomplete, [.plain .trace "run complete", .plain .trace "run left an assume open"])

end Oracle

namespace Run

variable {ε : Type}

/-- The run that judges one state and stops. -/
def single (j : Judged) (outcome : Outcome) (closing : Log) : Run ε :=
  ⟨.ok outcome, 1, [j], closing⟩

/-- The run that judges a state first and goes on after the next call. -/
def andThen (j : Judged) (r : Run ε) : Run ε :=
  { r with calls := r.calls + 1, judged := j :: r.judged }

/-- The run from a delivered state on, where `rest` and `failure` are what the source has left. -/
def ofDelivered (early : Bool) (failure : Option ε) :
    (o : Oracle) → (s : State) → (rest : List State) → Run ε
  | o, s, [] =>
    match failure with
    | some e => ⟨.error e, 1, [], []⟩
    | none =>
      let j : Judged := ⟨o, s, true⟩
      match j.after.stop? early with
      | some (outcome, r) => single j outcome [r]
      | none => single j j.after.conclude.1 j.after.conclude.2
  | o, s, t :: rest =>
    let j : Judged := ⟨o, s, false⟩
    match j.after.stop? early with
    | some (outcome, r) => single j outcome [r]
    | none => andThen j (ofDelivered early failure j.after t rest)

/-- The run over a source. -/
def ofSource (early : Bool) (o : Oracle) (source : Source ε) : Run ε :=
  match source.states, source.failure with
  | [], some e => ⟨.error e, 1, [], []⟩
  | [], none => ⟨.ok .incomplete, 1, [], [.plain .trace "empty trace"]⟩
  | s :: rest, failure =>
    let r := ofDelivered early failure o s rest
    { r with calls := r.calls + 1 }

/-- The records of a run over a source, without those of an observer. -/
def log (r : Run ε) (source : Source ε) : Log :=
  .plain .trace "new run starting" :: source.opening ++ r.judged.flatMap (·.log) ++ r.closing

/-- What an observer of a run is told. -/
inductive Event where
  /-- The run is about to start. -/
  | init
  /-- A state was judged. -/
  | step (j : Judged)
  /-- The run has ended with an outcome. -/
  | finalize (outcome : Outcome)

/-- The events of a run, in order. A run that fails is never finalized. -/
def events (r : Run ε) : List Event :=
  .init :: r.judged.map .step ++
    match r.outcome with
    | .ok outcome => [.finalize outcome]
    | .error _ => []

end Run

namespace Source

variable {ε : Type}

/-- The run that stops as soon as every property is settled. -/
def experiment (source : Source ε) (o : Oracle) : Run ε := Run.ofSource true o source

/-- The run that goes on to the end of the trace, for an observer to follow. -/
def trace (source : Source ε) (o : Oracle) : Run ε := Run.ofSource false o source

end Source

end TemporalMonitor
