import TemporalMonitor.Oracle

/-!
# Sources of states

A source delivers the states of a trace one call at a time. All it can do is deliver finitely many
states and then, at every later call, report the end of the trace or fail; so a source is given by
the states and by the failure, if there is one.
-/

namespace TemporalMonitor

/-- A trace that is read one state at a time and may fail with an `ε`. -/
structure Source (ε : Type) where
  /-- The records made at the first call, before a state is delivered. -/
  opening : Log := []
  /-- The states delivered, one per call. -/
  states : List State
  /-- The failure met after the last state, in place of the end of the trace. -/
  failure : Option ε := none

namespace Source

variable {ε : Type}

/-- The trace held in a list of states. -/
def ofStates (states : List State) : Source ε where
  states := states

/-- The source that fails at the call of the given number, counted from zero, instead of
delivering what is due; a source that ends before is not changed. -/
def failAt (source : Source ε) (call : Nat) (e : ε) : Source ε :=
  if call ≤ source.states.length then
    { source with states := source.states.take call, failure := some e }
  else source

/-- One call: the state delivered, or `none` at the end of the trace, and the source afterwards. -/
def next (source : Source ε) : Except ε (Option State) × Source ε :=
  match source.states, source.failure with
  | s :: rest, _ => (.ok (some s), { source with states := rest, opening := [] })
  | [], some e => (.error e, { source with opening := [] })
  | [], none => (.ok none, { source with opening := [] })

end Source

end TemporalMonitor
