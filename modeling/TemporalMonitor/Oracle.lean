import TemporalMonitor.Formula.Text
import TemporalMonitor.Log
import TemporalMonitor.Progression.Lookup

/-!
# Oracles

An oracle carries the assumes and the guarantees of a trace, formulas over the positions of its
states. Each update progresses every property that is still open through the next state; a settled
property keeps its verdict. At the end of the trace what is still open counts as violated.
-/

namespace TemporalMonitor

/-- The observations of one step: the value at each position, `none` where it is not observed. -/
abbrev State := List (Option Bool)

/-- The value observed at a position; positions beyond the state are not observed. -/
def State.value (s : State) (i : Nat) : Option Bool :=
  s[i]?.join

/-- Looking up positions in a state, which never fails. -/
def State.lookups : Lookup Nat State Empty := ⟨fun i s ↦ (.ok (s.value i), s)⟩

/-- The properties of a trace, as far as they have been judged. -/
structure Oracle where
  /-- The properties that a trace has to satisfy in order to count. -/
  assumes : List (Progression Nat) := []
  /-- The properties that are checked. -/
  guarantees : List (Progression Nat) := []
  /-- The number of updates so far. There is no bound to it, and none is needed: in a run over a
  file it stays below the number of bytes that were read, so a count of 64 bits would not wrap. -/
  step : Nat := 0
  deriving DecidableEq, Repr

/-- A property through the next state: open ones are progressed, settled ones are kept. -/
def Progression.advance (s : State) (final : Bool) : Progression Nat → Progression Nat
  | .residual f => f.progress s.value final
  | p => p

/-- The written form of a progression in the log. -/
def Progression.inspect {α : Type} [Written α] : Progression α → String
  | .verdict b => "Verdict(" ++ boolText b ++ ")"
  | .residual f => "Residual(" ++ f.inspect ++ ")"

/-- The record of a request for a table of observations. -/
def requestRecord : LogRecord := .plain .trace "requesting lookup table"

/-- The records of progressing one property through a state, at the given step. -/
def Progression.advanceLog (step : Nat) (s : State) (final : Bool) : Progression Nat → Log
  | .verdict _ => []
  | .residual f =>
    List.replicate (f.evaluate (.ok s) State.lookups final).2.requests requestRecord ++
      [.plain .trace ("step " ++ step.repr ++ ": " ++ f.render ++ " progressed to " ++
        (f.progress s.value final).inspect)]

namespace Oracle

/-- The oracle of the given assumes and guarantees before the first state. -/
def ofFormulas (assumes guarantees : List (Formula Nat)) : Oracle where
  assumes := assumes.map .residual
  guarantees := guarantees.map .residual

/-- Adds an assume, to be judged from the next update on. -/
def addAssume (o : Oracle) (f : Formula Nat) : Oracle :=
  { o with assumes := o.assumes ++ [.residual f] }

/-- Adds a guarantee, to be judged from the next update on. -/
def addGuarantee (o : Oracle) (f : Formula Nat) : Oracle :=
  { o with guarantees := o.guarantees ++ [.residual f] }

/-- The oracle after the next state, which is the last one of the trace if `final`. -/
def update (o : Oracle) (s : State) (final : Bool) : Oracle where
  assumes := o.assumes.map (·.advance s final)
  guarantees := o.guarantees.map (·.advance s final)
  step := o.step + 1

/-- The records of an update. -/
def updateLog (o : Oracle) (s : State) (final : Bool) : Log :=
  (o.assumes ++ o.guarantees).flatMap (·.advanceLog o.step s final)

/-- The verdicts of the assumes, as far as they are settled. -/
def assumeVerdicts (o : Oracle) : List (Option Bool) := o.assumes.map (·.verdict?)

/-- The verdicts of the guarantees, as far as they are settled. -/
def guaranteeVerdicts (o : Oracle) : List (Option Bool) := o.guarantees.map (·.verdict?)

/-- The values of the assumes at the end of the trace. -/
def finalAssumes (o : Oracle) : List Bool := o.assumes.map (·.finalValue)

/-- The values of the guarantees at the end of the trace. -/
def finalGuarantees (o : Oracle) : List Bool := o.guarantees.map (·.finalValue)

/-- Some assume is violated. -/
def violatesAssume (o : Oracle) : Bool := o.assumeVerdicts.any (· == some false)

/-- Every property is settled. -/
def settled (o : Oracle) : Bool :=
  o.assumeVerdicts.all (·.isSome) && o.guaranteeVerdicts.all (·.isSome)

end Oracle

end TemporalMonitor
