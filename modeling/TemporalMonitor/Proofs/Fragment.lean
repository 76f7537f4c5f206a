import TemporalMonitor.Proofs.Residual

/-!
# Fragments of the language

Two restrictions under which monitoring meets the classical meaning of a formula.

* The operands of each `strongUntil` are **propositional** (`hasStateUntils`). A `strongUntil` is
  never progressed into its operands, it keeps them as they are; so it is right about operands that
  a single state decides, provided the state observes their variables (`untilVars`).
* Each `next` stands below an even number of negations (`nextsBelow`). What is open at the end of a
  trace counts as false, which fits a `next` without a next state, but not the negation of one.

A propositional formula is settled by any state that observes its variables, with the truth value
that propositional logic gives it (`progress_of_isPropositional`).
-/

namespace TemporalMonitor.Formula

universe u v

variable {α : Type u}

/-- No temporal operator occurs in the formula. -/
def isPropositional : Formula α → Bool
  | const _ | var _ => true
  | neg f => f.isPropositional
  | conj f g | disj f g => f.isPropositional && g.isPropositional
  | next _ | eventually _ | always _ | strongUntil _ _ => false

/-- The operands of every `strongUntil` in the formula are propositional. -/
def hasStateUntils : Formula α → Bool
  | const _ | var _ => true
  | neg f | next f | eventually f | always f => f.hasStateUntils
  | conj f g | disj f g => f.hasStateUntils && g.hasStateUntils
  | strongUntil f g => f.isPropositional && g.isPropositional

/-- The variables that occur in operands of a `strongUntil`, one entry per occurrence. -/
def untilVars : Formula α → List α
  | const _ | var _ => []
  | neg f | next f | eventually f | always f => f.untilVars
  | conj f g | disj f g => f.untilVars ++ g.untilVars
  | strongUntil f g => f.vars ++ g.vars

/-- Every `next` in the formula stands below an even number of negations; below an odd number, if
`even` is false. -/
def nextsBelow (even : Bool) : Formula α → Bool
  | const _ | var _ => true
  | neg f => f.nextsBelow !even
  | conj f g | disj f g | strongUntil f g => f.nextsBelow even && g.nextsBelow even
  | next f => even && f.nextsBelow even
  | eventually f | always f => f.nextsBelow even

/-- Residuals keep the operands of the `strongUntil`s they stem from. -/
theorem hereditary_hasStateUntils (vs : List α) :
    Hereditary fun f : Formula α ↦ f.hasStateUntils = true ∧ f.untilVars ⊆ vs where
  const _ := ⟨rfl, List.nil_subset vs⟩
  neg := Iff.rfl
  conj := by simp [hasStateUntils, untilVars, and_and_and_comm]
  disj := by simp [hasStateUntils, untilVars, and_and_and_comm]
  next := id
  eventually := id
  always := id

/-- The truth value of a propositional formula under a valuation. -/
def truthAt (v : α → Bool) : Formula α → Bool
  | const b => b
  | var a => v a
  | neg f => !f.truthAt v
  | conj f g => f.truthAt v && g.truthAt v
  | disj f g => f.truthAt v || g.truthAt v
  | next _ | eventually _ | always _ | strongUntil _ _ => false

/-- Every reading that agrees with a valuation on constants and variables gives a propositional
formula its truth value. -/
theorem eq_boundOf_truthAt {L : Type v} [Lattice L] [BoundedOrder L] {compl : L → L}
    {e : Formula α → L} (he : Reading compl e) {f : Formula α} (hf : f.isPropositional = true)
    {v : α → Bool} (hconst : ∀ b, e (const b) = boundOf b)
    (hvar : ∀ a ∈ f.vars, e (var a) = boundOf (v a)) : e f = boundOf (f.truthAt v) := by
  induction f with
  | const b => exact hconst b
  | var a => exact hvar a (List.mem_singleton_self a)
  | neg f ih => rw [he.neg, ih hf hvar, he.compl_boundOf, truthAt]
  | conj f g ihf ihg =>
    rw [isPropositional, Bool.and_eq_true] at hf
    obtain ⟨hvarf, hvarg⟩ := List.forall_mem_append.1 hvar
    rw [he.conj, ihf hf.1 hvarf, ihg hf.2 hvarg, truthAt, boundOf_and]
  | disj f g ihf ihg =>
    rw [isPropositional, Bool.and_eq_true] at hf
    obtain ⟨hvarf, hvarg⟩ := List.forall_mem_append.1 hvar
    rw [he.disj, ihf hf.1 hvarf, ihg hf.2 hvarg, truthAt, boundOf_or]
  | next f _ | eventually f _ | always f _ | strongUntil f g _ _ => cases hf

/-- **One state settles a propositional formula** whose variables it observes. -/
theorem progress_of_isPropositional [DecidableEq α] {f : Formula α}
    (hf : f.isPropositional = true) {obs : α → Option Bool} {v : α → Bool}
    (hobs : ∀ a ∈ f.vars, obs a = some (v a)) (final : Bool) :
    f.progress obs final = .verdict (f.truthAt v) := by
  induction f with
  | const b => rfl
  | var a => rw [progress, hobs a (List.mem_singleton_self a)]; rfl
  | neg f ih => rw [progress, ih hf hobs]; rfl
  | conj f g ihf ihg =>
    rw [isPropositional, Bool.and_eq_true] at hf
    obtain ⟨hobsf, hobsg⟩ := List.forall_mem_append.1 hobs
    rw [progress, ihf hf.1 hobsf, ihg hf.2 hobsg, truthAt]
    cases f.truthAt v <;> rfl
  | disj f g ihf ihg =>
    rw [isPropositional, Bool.and_eq_true] at hf
    obtain ⟨hobsf, hobsg⟩ := List.forall_mem_append.1 hobs
    rw [progress, ihf hf.1 hobsf, ihg hf.2 hobsg, truthAt]
    cases f.truthAt v <;> rfl
  | next f _ | eventually f _ | always f _ | strongUntil f g _ _ => cases hf

end TemporalMonitor.Formula
