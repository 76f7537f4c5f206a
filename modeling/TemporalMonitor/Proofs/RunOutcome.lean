import TemporalMonitor.Observer
import TemporalMonitor.Proofs.Residual

/-!
# The outcome of a run, in closed form

A run judges all properties together, one state at a time, with one state of lookahead, and it may
leave before the end of the trace: when an assume is violated, or, if it may stop early, when every
property is settled. The outcome does not show any of this. It is given by the **final value** of
each property (`Formula.finalValue`), found by progressing that property alone through the whole
trace (`outcomeOf`), for a run that may stop early as for one that goes on, whoever observes it.

The invariant of the loop is the outcome that the oracle is headed for (`Oracle.outcomeOn`): judging
a state does not change it (`outcomeOn_cons`), and when the run stops it is the outcome with which
the run stops, whatever states follow (`outcomeOn_of_stop?`). The second half is where stability
comes in: a settled property keeps its verdict through any states.
-/

namespace TemporalMonitor

/-- The value of a property at the end of a trace, when it is progressed on its own through all the
states, the last of them final; what is still open counts as false. -/
def Formula.finalValue (f : Formula Nat) (states : List State) : Bool :=
  (f.run true (states.map State.value)).finalValue

/-- The outcome that the final values of the properties amount to. -/
def outcomeOf (assumes guarantees : List (Formula Nat)) (states : List State) : Outcome :=
  if states = [] ∨ ∃ f ∈ assumes, f.finalValue states ≠ true then .incomplete
  else .verified (guarantees.map (·.finalValue states))

namespace Progression

/-- A property through all the states that are left, the last of them final. -/
def settle (states : List State) : Progression Nat → Progression Nat
  | verdict b => verdict b
  | residual f => f.run true (states.map State.value)

@[simp]
theorem settle_nil (p : Progression Nat) : p.settle [] = p := by
  cases p <;> rfl

theorem settle_cons (s : State) (rest : List State) (p : Progression Nat) :
    p.settle (s :: rest) = (p.advance s rest.isEmpty).settle rest := by
  cases p with
  | verdict b => rfl
  | residual f =>
    rw [settle, advance, List.map_cons, Formula.run, Bool.true_and, List.isEmpty_map]
    cases f.progress s.value rest.isEmpty <;> rfl

/-- A property with a verdict keeps it to the end of the trace. -/
theorem finalValue_settle_of_verdict? {p : Progression Nat} {b : Bool} (h : p.verdict? = some b)
    (states : List State) : (p.settle states).finalValue = b := by
  cases p with
  | verdict c => exact Option.some.inj h
  | residual f => cases h

end Progression

namespace Oracle

/-- The outcome of a run from the oracle on, over the states that are left. -/
def outcomeOn (o : Oracle) (states : List State) : Outcome :=
  if o.assumes.all fun p ↦ (p.settle states).finalValue then
    .verified (o.guarantees.map fun p ↦ (p.settle states).finalValue)
  else .incomplete

theorem outcomeOn_nil (o : Oracle) : o.outcomeOn [] = o.conclude.1 := by
  simp only [outcomeOn, conclude, finalAssumes, finalGuarantees, Progression.settle_nil,
    List.all_map, Function.comp_def]
  split_ifs <;> rfl

/-- Judging a state does not change where the run is headed. -/
theorem outcomeOn_cons (o : Oracle) (s : State) (rest : List State) :
    o.outcomeOn (s :: rest) = (o.update s rest.isEmpty).outcomeOn rest := by
  simp only [outcomeOn, update, List.all_map, List.map_map, Function.comp_def,
    Progression.settle_cons]

theorem violatesAssume_iff {o : Oracle} :
    o.violatesAssume = true ↔ ∃ p ∈ o.assumes, p.verdict? = some false := by
  simp [violatesAssume, assumeVerdicts]

theorem settled_iff {o : Oracle} :
    o.settled = true ↔ (∀ p ∈ o.assumes, p.verdict?.isSome = true) ∧
      ∀ p ∈ o.guarantees, p.verdict?.isSome = true := by
  simp [settled, assumeVerdicts, guaranteeVerdicts]

/-- A violated assume makes the trace incomplete, whatever follows. -/
theorem outcomeOn_of_violatesAssume {o : Oracle} (h : o.violatesAssume = true)
    (rest : List State) : o.outcomeOn rest = .incomplete := by
  obtain ⟨p, hp, hverdict⟩ := violatesAssume_iff.1 h
  rw [outcomeOn, if_neg]
  intro hall
  have htrue := List.all_eq_true.1 hall p hp
  rw [p.finalValue_settle_of_verdict? hverdict rest] at htrue
  cases htrue

/-- When every property is settled and no assume is violated, the guarantees have their final
values, whatever follows. -/
theorem outcomeOn_of_settled {o : Oracle} (hviolates : o.violatesAssume ≠ true)
    (h : o.settled = true) (rest : List State) :
    o.outcomeOn rest = .verified o.finalGuarantees := by
  obtain ⟨hassumes, hguarantees⟩ := settled_iff.1 h
  -- an assume that is settled and not violated is true
  have hall : o.assumes.all (fun p ↦ (p.settle rest).finalValue) = true := by
    refine List.all_eq_true.2 fun p hp ↦ ?_
    obtain ⟨b, hb⟩ := Option.isSome_iff_exists.1 (hassumes p hp)
    rw [p.finalValue_settle_of_verdict? hb rest]
    cases b with
    | true => rfl
    | false => exact absurd (violatesAssume_iff.2 ⟨p, hp, hb⟩) hviolates
  have hmap : o.guarantees.map (fun p ↦ (p.settle rest).finalValue) = o.finalGuarantees := by
    refine List.map_congr_left fun p hp ↦ ?_
    obtain ⟨b, hb⟩ := Option.isSome_iff_exists.1 (hguarantees p hp)
    rw [p.finalValue_settle_of_verdict? hb rest, Progression.finalValue, hb, Option.getD_some]
  rw [outcomeOn, if_pos hall, hmap]

/-- **Stopping is safe.** The outcome with which a run stops is the one it is headed for, whatever
states follow. -/
theorem outcomeOn_of_stop? {o : Oracle} {early : Bool} {outcome : Outcome} {r : LogRecord}
    (h : o.stop? early = some (outcome, r)) (rest : List State) : o.outcomeOn rest = outcome := by
  rw [stop?] at h
  split_ifs at h with hviolates hsettled
  · obtain ⟨rfl, -⟩ := Prod.mk.inj (Option.some.inj h)
    exact outcomeOn_of_violatesAssume hviolates rest
  · obtain ⟨rfl, -⟩ := Prod.mk.inj (Option.some.inj h)
    exact outcomeOn_of_settled hviolates (Bool.and_eq_true_iff.1 hsettled).2 rest

/-- An oracle before the first state is headed for what the final values amount to. -/
theorem outcomeOn_ofFormulas (assumes guarantees : List (Formula Nat)) {states : List State}
    (h : states ≠ []) :
    (ofFormulas assumes guarantees).outcomeOn states = outcomeOf assumes guarantees states := by
  have hsettle : ∀ f : Formula Nat,
      ((Progression.residual f).settle states).finalValue = f.finalValue states := fun _ ↦ rfl
  simp only [outcomeOn, outcomeOf, ofFormulas, List.all_map, List.map_map, Function.comp_def,
    hsettle, h, false_or]
  by_cases hall : ∀ f ∈ assumes, f.finalValue states = true
  · rw [if_pos (List.all_eq_true.2 hall), if_neg]
    rintro ⟨f, hf, hne⟩
    exact hne (hall f hf)
  · rw [if_neg fun htrue ↦ hall (List.all_eq_true.1 htrue), if_pos]
    simpa using hall

end Oracle

namespace Run

variable {ε : Type}

/-- The loop: from a delivered state on, a run that meets no failure ends with the outcome that its
oracle is headed for. -/
theorem outcome_ofDelivered (early : Bool) (o : Oracle) (s : State) (rest : List State) :
    (ofDelivered early (none : Option ε) o s rest).outcome = .ok (o.outcomeOn (s :: rest)) := by
  -- the invariant moves from the oracle before a state to the oracle after it
  induction rest generalizing o s with
  | nil =>
    rw [Oracle.outcomeOn_cons, ofDelivered]
    split
    · next outcome r hstop => exact congrArg Except.ok (Oracle.outcomeOn_of_stop? hstop []).symm
    · exact congrArg Except.ok (Oracle.outcomeOn_nil _).symm
  | cons t rest ih =>
    rw [Oracle.outcomeOn_cons, ofDelivered]
    split
    · next outcome r hstop =>
      exact congrArg Except.ok (Oracle.outcomeOn_of_stop? hstop (t :: rest)).symm
    · exact ih (o.update s false) t

theorem outcome_ofSource (early : Bool) (assumes guarantees : List (Formula Nat))
    {source : Source ε} (h : source.failure = none) :
    (ofSource early (.ofFormulas assumes guarantees) source).outcome =
      .ok (outcomeOf assumes guarantees source.states) := by
  obtain ⟨opening, states, failure⟩ := source
  obtain rfl : failure = none := h
  cases states with
  | nil => rfl
  | cons s rest =>
    rw [← Oracle.outcomeOn_ofFormulas assumes guarantees (List.cons_ne_nil s rest)]
    exact outcome_ofDelivered early _ s rest

end Run

/-- **The outcome in closed form.** Over a source that does not fail, the run that stops as soon as
every property is settled and the run to the end of the trace, the latter under any observer, end
with the outcome that the final values of the properties amount to. -/
theorem outcome_eq_outcomeOf {ε ω : Type} (assumes guarantees : List (Formula Nat))
    {source : Source ε} (h : source.failure = none) :
    (source.experiment (.ofFormulas assumes guarantees)).outcome =
        .ok (outcomeOf assumes guarantees source.states) ∧
      (source.trace (.ofFormulas assumes guarantees)).outcome =
        .ok (outcomeOf assumes guarantees source.states) ∧
      ∀ (observer : Observer ω) (sourceIn : ω → Source ε) (stats : Statistics) (world : ω),
        sourceIn (observer.init stats world).2 = source →
          (observedRun (.ofFormulas assumes guarantees) observer sourceIn stats world).1 =
            .ok (outcomeOf assumes guarantees source.states) := by
  refine ⟨Run.outcome_ofSource true assumes guarantees h,
    Run.outcome_ofSource false assumes guarantees h, ?_⟩
  rintro observer sourceIn stats world rfl
  exact Run.outcome_ofSource false assumes guarantees h

/-- A run whose properties are all settled by the first of two states. -/
theorem outcome_eq_outcomeOf_settled :
    let assumes : List (Formula Nat) := [.neg (.var 2)]
    let guarantees : List (Formula Nat) := [.eventually (.var 0), .always (.var 1)]
    let source : Source Empty := .ofStates [[some true, some false, some false], [none, none, none]]
    source.failure = none ∧ outcomeOf assumes guarantees source.states = .verified [true, false] ∧
      (source.experiment (.ofFormulas assumes guarantees)).outcome =
        .ok (outcomeOf assumes guarantees source.states) ∧
      (source.trace (.ofFormulas assumes guarantees)).outcome =
        .ok (outcomeOf assumes guarantees source.states) ∧
      (observedRun (.ofFormulas assumes guarantees) .silent (fun _ ↦ source) {} ()).1 =
        .ok (outcomeOf assumes guarantees source.states) := by
  intro assumes guarantees source
  obtain ⟨hexperiment, htrace, hobserved⟩ :=
    outcome_eq_outcomeOf assumes guarantees (rfl : source.failure = none)
  exact ⟨rfl, by decide, hexperiment, htrace, hobserved .silent (fun _ ↦ source) {} () rfl⟩

end TemporalMonitor
