import TemporalMonitor.Proofs.Reading

/-!
# Residuals along a sequence of states

Iterated progression in two forms. `Formula.run` feeds each residual to the next state and stops at
the first verdict; only the last state may be the final one. `Formula.after` takes every step before
the final one and never stops, since a verdict becomes a constant; the two agree
(`toFormula_run`).

Residuals inherit from the formula they stem from whatever passes down to operands and through the
connectives (`Hereditary`): every step builds its residual from such parts only.
-/

namespace TemporalMonitor

universe u

variable {α : Type u} [DecidableEq α]

namespace Formula

/-- Progresses a formula through the states in order, each residual through the next one, until
there is a verdict. The last state is the final one if `final`. -/
def run (final : Bool) : List (α → Option Bool) → Formula α → Progression α
  | [], f => .residual f
  | s :: rest, f =>
    match f.progress s (final && rest.isEmpty) with
    | .verdict b => .verdict b
    | .residual r => run final rest r

/-- The formula that is left after steps through the given states, none of them final. -/
def after (w : List (α → Option Bool)) (f : Formula α) : Formula α :=
  w.foldl (fun g s ↦ (g.progress s false).toFormula) f

@[simp]
theorem after_nil (f : Formula α) : f.after [] = f :=
  rfl

@[simp]
theorem after_cons (s : α → Option Bool) (w : List (α → Option Bool)) (f : Formula α) :
    f.after (s :: w) = (f.progress s false).toFormula.after w :=
  rfl

/-- A constant stays what it is. -/
theorem after_const (b : Bool) (w : List (α → Option Bool)) :
    (const b : Formula α).after w = const b := by
  induction w with
  | nil => rfl
  | cons s w ih => exact ih

/-- Stopping at the first verdict loses nothing: the formula left is the same. -/
theorem toFormula_run (w : List (α → Option Bool)) (f : Formula α) :
    (f.run false w).toFormula = f.after w := by
  induction w generalizing f with
  | nil => rfl
  | cons s w ih =>
    rw [run, after_cons, Bool.false_and]
    -- a verdict stops the run, and stays put as a constant
    cases f.progress s false with
    | verdict b => exact (after_const b w).symm
    | residual r => exact ih r

end Formula

/-! ### What residuals inherit -/

/-- A property of formulas that operands inherit, and that connectives pass on in both
directions. -/
structure Hereditary (P : Formula α → Prop) : Prop where
  /-- Constants have the property: they stand for verdicts. -/
  const : ∀ b, P (.const b)
  /-- Negation passes it on. -/
  neg : ∀ {f}, P (.neg f) ↔ P f
  /-- Conjunction passes it on. -/
  conj : ∀ {f g}, P (.conj f g) ↔ P f ∧ P g
  /-- Disjunction passes it on. -/
  disj : ∀ {f g}, P (.disj f g) ↔ P f ∧ P g
  /-- The operand of a `next` inherits it. -/
  next : ∀ {f}, P (.next f) → P f
  /-- The operand of an `eventually` inherits it. -/
  eventually : ∀ {f}, P (.eventually f) → P f
  /-- The operand of an `always` inherits it. -/
  always : ∀ {f}, P (.always f) → P f

namespace Hereditary

variable {P : Formula α → Prop}

theorem join (hP : Hereditary P) (c : Connective) {l r : Formula α} (hl : P l) (hr : P r) :
    P (c.join l r) := by
  rcases c.join_cases l r with h | h | h <;> rw [h]
  · exact hl
  · exact hr
  · cases c with
    | conj => exact hP.conj.2 ⟨hl, hr⟩
    | disj => exact hP.disj.2 ⟨hl, hr⟩

omit [DecidableEq α] in
theorem negate (hP : Hereditary P) {p : Progression α} (hp : P p.toFormula) :
    P p.negate.toFormula := by
  cases p with
  | verdict b => exact hP.const _
  | residual f => exact hP.neg.2 hp

theorem combine (hP : Hereditary P) (c : Connective) {p q : Progression α}
    (hp : P p.toFormula) (hq : P q.toFormula) : P (Progression.combine c p q).toFormula := by
  cases p with
  | verdict b =>
    rw [Progression.combine]
    split_ifs
    · exact hq
    · exact hP.const b
  | residual l =>
    cases q with
    | verdict b =>
      rw [Progression.combine]
      split_ifs
      · exact hp
      · exact hP.const b
    | residual r => exact hP.join c hp hq

theorem unroll (hP : Hereditary P) (c : Connective) {whole : Formula α} (hwhole : P whole)
    (sub : Formula α) (final : Bool) {p : Progression α} (hp : P p.toFormula) :
    P (Progression.unroll c whole sub final p).toFormula := by
  cases p with
  | verdict b =>
    rw [Progression.unroll]
    split_ifs
    · exact hwhole
    · exact hP.const b
  | residual r =>
    show P (if r = sub then whole else c.join r whole)
    split_ifs
    · exact hwhole
    · exact hP.join c hp hwhole

/-- **A step keeps what is hereditary.** -/
theorem progress (hP : Hereditary P) (obs : α → Option Bool) (final : Bool) {f : Formula α}
    (hf : P f) : P (f.progress obs final).toFormula := by
  induction f with
  | const b => exact hf
  | var a =>
    rw [Formula.progress]
    cases obs a with
    | none => exact hf
    | some b => exact hP.const b
  | neg f ih => exact hP.negate (ih (hP.neg.1 hf))
  | conj f g ihf ihg =>
    obtain ⟨hf, hg⟩ := hP.conj.1 hf
    exact hP.combine .conj (ihf hf) (ihg hg)
  | disj f g ihf ihg =>
    obtain ⟨hf, hg⟩ := hP.disj.1 hf
    exact hP.combine .disj (ihf hf) (ihg hg)
  | next f _ => exact hP.next hf
  | eventually f ih => exact hP.unroll .disj hf f final (ih (hP.eventually hf))
  | always f ih => exact hP.unroll .conj hf f final (ih (hP.always hf))
  | strongUntil f g _ _ =>
    -- the residual is the formula itself, so nothing is asked of its operands
    rw [Formula.progress]
    split
    · exact hP.const true
    · split_ifs
      · exact hP.const false
      · split
        · exact hP.const false
        · exact hf
    · exact hf

end Hereditary

end TemporalMonitor
