import TemporalMonitor.Progression

/-!
# Progression with observations on demand

Observations need not be at hand when a formula is progressed: the table that holds them is
requested when the first variable is met, and it answers one variable at a time, which may change
the table (a sensor is read) and may fail. `Formula.evaluate` progresses a formula against such a
table and does no more than needed:

* the table is requested at most once, and not at all if no variable is met;
* a variable is looked up at most once, since its answer is kept for the rest of the step;
* the right operand of a connective is not visited when the left one settles it, nothing is visited
  below `next`, and the left operand of a `strongUntil` is visited only when the right one is false
  before the final step.

The first failure ends the evaluation. The formula itself never changes, so a step that failed can
be tried again.
-/

namespace TemporalMonitor

/-- A kind of table, with states in `τ`, that answers variables in `α` or fails with an `ε`. -/
structure Lookup (α τ ε : Type) where
  /-- The answer for a variable, `none` if it is not observed, and the table afterwards. -/
  ask : α → τ → Except ε (Option Bool) × τ

/-- What an evaluation has done so far. -/
structure Session (α τ : Type) where
  /-- The table, once it has been requested and handed over. -/
  table : Option τ := none
  /-- How often the table was requested. -/
  requests : Nat := 0
  /-- The variables passed to the table, in order. -/
  asked : List α := []
  /-- The answers received, latest first. -/
  answers : List (α × Option Bool) := []

/-- Evaluations that fail with an `ε` and keep their session when they do. -/
abbrev Evaluation (α τ ε : Type) := ExceptT ε (StateM (Session α τ))

namespace Evaluation

variable {α τ ε : Type}

/-- The table of the session, requested from the provider if this has not happened yet. -/
def table (provider : Except ε τ) : Evaluation α τ ε τ := do
  match (← get).table with
  | some t => pure t
  | none =>
    modify fun s ↦ { s with requests := s.requests + 1 }
    match provider with
    | .ok t => pure t
    | .error e => throw e

/-- Passes a variable to the table and keeps its answer. -/
def consult (lookup : Lookup α τ ε) (t : τ) (a : α) : Evaluation α τ ε (Option Bool) := do
  let (answer, t') := lookup.ask a t
  modify fun s ↦ { s with table := some t', asked := s.asked ++ [a] }
  match answer with
  | .ok v =>
    modify fun s ↦ { s with answers := (a, v) :: s.answers }
    pure v
  | .error e => throw e

/-- The value of a variable: the answer already received, or else the answer of the table. -/
def value [DecidableEq α] (provider : Except ε τ) (lookup : Lookup α τ ε) (a : α) :
    Evaluation α τ ε (Option Bool) := do
  match (← get).answers.lookup a with
  | some v => pure v
  | none => consult lookup (← table provider) a

end Evaluation

namespace Formula

variable {α τ ε : Type} [DecidableEq α]

/-- Progresses a formula within a session. -/
def evaluateIn (provider : Except ε τ) (lookup : Lookup α τ ε) (final : Bool) :
    Formula α → Evaluation α τ ε (Progression α)
  | const b => pure (.verdict b)
  | var a => do
    match ← Evaluation.value provider lookup a with
    | some b => pure (.verdict b)
    | none => pure (.residual (var a))
  | neg f => do
    return (← f.evaluateIn provider lookup final).negate
  | conj f g => do
    let p ← f.evaluateIn provider lookup final
    if p = .verdict false then pure p
    else return .combine .conj p (← g.evaluateIn provider lookup final)
  | disj f g => do
    let p ← f.evaluateIn provider lookup final
    if p = .verdict true then pure p
    else return .combine .disj p (← g.evaluateIn provider lookup final)
  | next f => pure (.residual f)
  | eventually f => do
    return .unroll .disj (eventually f) f final (← f.evaluateIn provider lookup final)
  | always f => do
    return .unroll .conj (always f) f final (← f.evaluateIn provider lookup final)
  | strongUntil f g => do
    match ← g.evaluateIn provider lookup final with
    | .verdict true => pure (.verdict true)
    | .verdict false =>
      if final then pure (.verdict false)
      else match ← f.evaluateIn provider lookup final with
        | .verdict false => pure (.verdict false)
        | _ => pure (.residual (strongUntil f g))
    | .residual _ => pure (.residual (strongUntil f g))

/-- Progresses a formula through a step whose observations come from a provided table; also gives
what was requested and asked, and the table as it was left. -/
def evaluate (provider : Except ε τ) (lookup : Lookup α τ ε) (final : Bool) (f : Formula α) :
    Except ε (Progression α) × Session α τ :=
  (f.evaluateIn provider lookup final).run.run {}

end Formula

end TemporalMonitor
