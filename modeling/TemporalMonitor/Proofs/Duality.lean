import Mathlib.Logic.Function.Basic
import TemporalMonitor.Proofs.OnDemand
import TemporalMonitor.Proofs.Residual

/-!
# The two halves of progression are mirror images

The dual of a formula exchanges the two connectives, `eventually` and `always`, and the two truth
values; variables, negation and `next` stay in place. Progressing the dual through the opposite
observations gives the dual of the progression, as a formula and not only in meaning. So a rule for
one connective says all about the rule for the other one: which operand survives when residuals are
pruned, what settles a connective, and what becomes of an operator at the final step.

A `strongUntil` has no dual in the language, so it is excluded (`isUntilFree`).

The same holds when observations are asked for on demand, for every table and also when it fails:
against a table with the opposite answers the dual asks for the same variables in the same order
(`Evaluation.Mirrors`), because what settles a connective early is exchanged as well.
-/

namespace TemporalMonitor

universe u

/-! ### Dual formulas -/

namespace Formula

variable {α : Type u}

/-- No `strongUntil` occurs in the formula. -/
def isUntilFree : Formula α → Bool
  | const _ | var _ => true
  | neg f | next f | eventually f | always f => f.isUntilFree
  | conj f g | disj f g => f.isUntilFree && g.isUntilFree
  | strongUntil _ _ => false

/-- The formula with the connectives, the operators `eventually` and `always`, and the truth values
exchanged. A `strongUntil` is kept, with the duals of its operands, so that `dual` undoes itself on
all formulas. -/
def dual : Formula α → Formula α
  | const b => const !b
  | var a => var a
  | neg f => neg f.dual
  | conj f g => disj f.dual g.dual
  | disj f g => conj f.dual g.dual
  | next f => next f.dual
  | eventually f => always f.dual
  | always f => eventually f.dual
  | strongUntil f g => strongUntil f.dual g.dual

theorem dual_dual (f : Formula α) : f.dual.dual = f := by
  induction f with
  | const b => rw [dual, dual, Bool.not_not]
  | var a => rfl
  | neg f ih | next f ih | eventually f ih | always f ih => rw [dual, dual, ih]
  | conj f g ihf ihg | disj f g ihf ihg | strongUntil f g ihf ihg => rw [dual, dual, ihf, ihg]

theorem dual_inj {f g : Formula α} : f.dual = g.dual ↔ f = g :=
  (Function.Involutive.injective dual_dual).eq_iff

theorem hereditary_isUntilFree : Hereditary fun f : Formula α ↦ f.isUntilFree = true where
  const _ := rfl
  neg := Iff.rfl
  conj := Bool.and_eq_true_iff
  disj := Bool.and_eq_true_iff
  next := id
  eventually := id
  always := id

end Formula

namespace Connective

variable {α : Type u}

theorem unit_dual (c : Connective) : c.dual.unit = !c.unit := by
  cases c <;> rfl

theorem dual_apply (c : Connective) (l r : Formula α) :
    (c.apply l r).dual = c.dual.apply l.dual r.dual := by
  cases c <;> rfl

variable [DecidableEq α]

theorem hasOperand_dual (c : Connective) (compound f : Formula α) :
    c.dual.hasOperand compound.dual f.dual = c.hasOperand compound f := by
  cases c with
  | conj =>
    cases compound with
    | conj l r => simp only [dual, Formula.dual, hasOperand, Formula.dual_inj]
    | _ => rfl
  | disj =>
    cases compound with
    | disj l r => simp only [dual, Formula.dual, hasOperand, Formula.dual_inj]
    | _ => rfl

/-- Joining dual residuals keeps the operand that joining the residuals keeps. -/
theorem join_dual (c : Connective) (l r : Formula α) :
    c.dual.join l.dual r.dual = (c.join l r).dual := by
  simp only [join, prune, hasOperand_dual, Formula.dual_inj]
  split_ifs
  · rfl
  · rfl
  · exact (c.dual_apply l r).symm

end Connective

/-! ### One step, and a run -/

namespace Progression

variable {α : Type u}

/-- The dual of a progression: the other verdict, or the dual of the residual. -/
def dual : Progression α → Progression α
  | verdict b => verdict !b
  | residual f => residual f.dual

theorem dual_eq_verdict_iff {p : Progression α} {b : Bool} :
    p.dual = verdict (!b) ↔ p = verdict b := by
  cases p <;> simp [dual]

theorem negate_dual (p : Progression α) : p.dual.negate = p.negate.dual := by
  cases p <;> rfl

variable [DecidableEq α]

theorem combine_dual (c : Connective) (p q : Progression α) :
    combine c.dual p.dual q.dual = (combine c p q).dual := by
  have hunit : ∀ b, ((!b) = c.dual.unit) = (b = c.unit) := fun b ↦ by
    rw [c.unit_dual, Bool.not_inj_iff]
  cases p with
  | verdict b =>
    simp only [dual, combine, hunit]
    split_ifs <;> rfl
  | residual l =>
    cases q with
    | verdict b =>
      simp only [dual, combine, hunit]
      split_ifs <;> rfl
    | residual r => exact congrArg residual (c.join_dual l r)

theorem unroll_dual (c : Connective) (whole sub : Formula α) (final : Bool) (p : Progression α) :
    unroll c.dual whole.dual sub.dual final p.dual = (unroll c whole sub final p).dual := by
  cases p with
  | verdict b =>
    simp only [dual, unroll, c.unit_dual, Bool.not_inj_iff]
    split_ifs <;> rfl
  | residual r =>
    simp only [dual, unroll, Formula.dual_inj]
    split_ifs
    · rfl
    · exact congrArg residual (c.join_dual r whole)

end Progression

namespace Formula

variable {α : Type u} [DecidableEq α]

/-- **The step of the dual is the dual of the step**, through the opposite observations. -/
theorem progress_dual (obs : α → Option Bool) (final : Bool) {f : Formula α}
    (hf : f.isUntilFree = true) :
    f.dual.progress (Option.map not ∘ obs) final = (f.progress obs final).dual := by
  induction f with
  | const b => rfl
  | var a =>
    rw [dual, progress, progress, Function.comp_apply]
    cases obs a <;> rfl
  | neg f ih => rw [dual, progress, progress, ih hf, Progression.negate_dual]
  | conj f g ihf ihg =>
    obtain ⟨hf, hg⟩ := Bool.and_eq_true_iff.1 hf
    rw [dual, progress, progress, ihf hf, ihg hg]
    exact Progression.combine_dual .conj _ _
  | disj f g ihf ihg =>
    obtain ⟨hf, hg⟩ := Bool.and_eq_true_iff.1 hf
    rw [dual, progress, progress, ihf hf, ihg hg]
    exact Progression.combine_dual .disj _ _
  | next f _ => rfl
  | eventually f ih =>
    rw [dual, progress, progress, ih hf]
    exact Progression.unroll_dual .disj (eventually f) f final _
  | always f ih =>
    rw [dual, progress, progress, ih hf]
    exact Progression.unroll_dual .conj (always f) f final _
  | strongUntil f g _ _ => cases hf

/-- **The run of the dual is the dual of the run.** -/
theorem run_dual (final : Bool) (w : List (α → Option Bool)) {f : Formula α}
    (hf : f.isUntilFree = true) :
    f.dual.run final (w.map (Option.map not ∘ ·)) = (f.run final w).dual := by
  induction w generalizing f with
  | nil => rfl
  | cons obs w ih =>
    have hleft := hereditary_isUntilFree.progress obs (final && w.isEmpty) hf
    rw [List.map_cons, run, run, List.isEmpty_map, progress_dual obs _ hf]
    cases hp : f.progress obs (final && w.isEmpty) with
    | verdict b => rfl
    | residual r =>
      rw [hp] at hleft
      exact ih hleft

end Formula

/-! ### Observations on demand -/

variable {α τ ε : Type}

/-- The table that gives the opposite answers. What is not observed stays so, and so does a
failure. -/
def Lookup.opposite (lookup : Lookup α τ ε) : Lookup α τ ε :=
  ⟨fun a t ↦ ((lookup.ask a t).1.map (Option.map not), (lookup.ask a t).2)⟩

/-- The session that has received the opposite answers. -/
def Session.opposite (s : Session α τ) : Session α τ :=
  { s with answers := s.answers.map (Prod.map id (Option.map not)) }

namespace Evaluation

variable {β γ δ η : Type}

/-- From the opposite session, `m'` does what `m` does and gives the image of its result. -/
def Mirrors (g : β → γ) (m : Evaluation α τ ε β) (m' : Evaluation α τ ε γ) : Prop :=
  ∀ s, m'.run.run s.opposite = ((m.run.run s).1.map g, (m.run.run s).2.opposite)

namespace Mirrors

theorem pure (g : β → γ) (b : β) :
    Mirrors g (Pure.pure b : Evaluation α τ ε β) (Pure.pure (g b)) :=
  fun _ ↦ rfl

theorem bind {g : β → γ} {h : δ → η} {m : Evaluation α τ ε β} {m' : Evaluation α τ ε γ}
    {k : β → Evaluation α τ ε δ} {k' : γ → Evaluation α τ ε η} (hm : Mirrors g m m')
    (hk : ∀ b, Mirrors h (k b) (k' (g b))) : Mirrors h (m >>= k) (m' >>= k') := by
  intro s
  have hm' := hm s
  rcases hrun : m.run.run s with ⟨e | b, s₁⟩
  · rw [hrun] at hm'
    rw [run_bind_of_error hrun, run_bind_of_error hm']
    rfl
  · rw [hrun] at hm'
    rw [run_bind_of_ok hrun, run_bind_of_ok hm']
    exact hk b s₁

/-- Results that are passed on through functions that the images respect. -/
theorem map {g : β → γ} {h : δ → η} {m : Evaluation α τ ε β} {m' : Evaluation α τ ε γ}
    (hm : Mirrors g m m') {x : β → δ} {x' : γ → η} (hx : ∀ b, x' (g b) = h (x b)) :
    Mirrors h (do return x (← m)) (do return x' (← m')) :=
  hm.bind fun b ↦ hx b ▸ Mirrors.pure h (x b)

end Mirrors

variable [DecidableEq α] {provider : Except ε τ} {lookup : Lookup α τ ε}

theorem lookup_answers_opposite (s : Session α τ) (a : α) :
    s.opposite.answers.lookup a = (s.answers.lookup a).map (Option.map not) := by
  show (s.answers.map (Prod.map id (Option.map not))).lookup a = _
  induction s.answers with
  | nil => rfl
  | cons x answers ih =>
    rw [List.map_cons, List.lookup_cons, List.lookup_cons, ih, Prod.map_fst, id]
    split <;> rfl

omit [DecidableEq α] in
theorem mirrors_table :
    Mirrors id (table provider : Evaluation α τ ε τ) (table provider) := by
  intro s
  cases hs : s.table with
  | some t =>
    have hs' : s.opposite.table = some t := hs
    rw [run_table_of_some hs, run_table_of_some hs']
    rfl
  | none =>
    have hs' : s.opposite.table = none := hs
    rw [run_table_of_none hs, run_table_of_none hs']
    cases provider <;> rfl

omit [DecidableEq α] in
theorem mirrors_consult (t : τ) (a : α) :
    Mirrors (Option.map not) (consult lookup t a) (consult lookup.opposite t a) := by
  intro s
  have hask : lookup.opposite.ask a t =
      ((lookup.ask a t).1.map (Option.map not), (lookup.ask a t).2) := rfl
  rw [run_consult, run_consult, hask]
  cases (lookup.ask a t).1 <;> rfl

/-- A variable that is known has the opposite value, and another one gets the opposite answer. -/
theorem mirrors_value (a : α) :
    Mirrors (Option.map not) (value provider lookup a) (value provider lookup.opposite a) := by
  intro s
  have hknown := lookup_answers_opposite s a
  cases hs : s.answers.lookup a with
  | some v =>
    rw [hs] at hknown
    rw [run_value_of_some hs, run_value_of_some hknown]
    rfl
  | none =>
    rw [hs] at hknown
    rw [run_value_of_none hs, run_value_of_none hknown]
    exact mirrors_table.bind (fun t ↦ mirrors_consult t a) s

/-- The operands of a connective: the dual one is settled early by the opposite verdict. -/
theorem mirrors_combine (c : Connective) {m m' n n' : Evaluation α τ ε (Progression α)}
    (hm : Mirrors .dual m m') (hn : Mirrors .dual n n') :
    Mirrors .dual
      (do
        let p ← m
        if p = .verdict (!c.unit) then Pure.pure p else return .combine c p (← n))
      (do
        let p ← m'
        if p = .verdict (!c.dual.unit) then Pure.pure p else return .combine c.dual p (← n')) := by
  refine hm.bind fun p ↦ ?_
  simp only [c.unit_dual, Progression.dual_eq_verdict_iff]
  split_ifs
  · exact .pure _ p
  · exact hn.map fun q ↦ Progression.combine_dual c p q

/-- **Evaluating the dual mirrors evaluating the formula.** -/
theorem mirrors_evaluateIn (final : Bool) {f : Formula α} (hf : f.isUntilFree = true) :
    Mirrors .dual (f.evaluateIn provider lookup final)
      (f.dual.evaluateIn provider lookup.opposite final) := by
  induction f with
  | const b => exact .pure Progression.dual (.verdict b)
  | var a =>
    refine (mirrors_value a).bind fun v ↦ ?_
    cases v with
    | none => exact .pure Progression.dual (.residual (.var a))
    | some b => exact .pure Progression.dual (.verdict b)
  | neg f ih => exact (ih hf).map Progression.negate_dual
  | conj f g ihf ihg =>
    obtain ⟨hf, hg⟩ := Bool.and_eq_true_iff.1 hf
    exact mirrors_combine .conj (ihf hf) (ihg hg)
  | disj f g ihf ihg =>
    obtain ⟨hf, hg⟩ := Bool.and_eq_true_iff.1 hf
    exact mirrors_combine .disj (ihf hf) (ihg hg)
  | next f _ => exact .pure Progression.dual (.residual f)
  | eventually f ih => exact (ih hf).map (Progression.unroll_dual .disj (.eventually f) f final)
  | always f ih => exact (ih hf).map (Progression.unroll_dual .conj (.always f) f final)
  | strongUntil f g _ _ => cases hf

end Evaluation

/-- **The conjunctive and the disjunctive half of progression are mirror images.** Through the
opposite observations, one step or a run of the dual of a formula gives the other verdict or the
dual of the residual. On demand it does so with the same requests and the same variables asked for,
in the same order, and fails where the formula fails. -/
theorem Formula.progress_commutes_with_duality [DecidableEq α] {f : Formula α}
    (hf : f.isUntilFree = true) :
    (∀ (obs : α → Option Bool) (final : Bool),
      f.dual.progress (Option.map not ∘ obs) final = (f.progress obs final).dual) ∧
    (∀ (w : List (α → Option Bool)) (final : Bool),
      f.dual.run final (w.map (Option.map not ∘ ·)) = (f.run final w).dual) ∧
    ∀ {τ ε : Type} (provider : Except ε τ) (lookup : Lookup α τ ε) (final : Bool),
      f.dual.evaluate provider lookup.opposite final =
        ((f.evaluate provider lookup final).1.map Progression.dual,
          (f.evaluate provider lookup final).2.opposite) := by
  refine ⟨fun obs final ↦ progress_dual obs final hf, fun w final ↦ run_dual final w hf, ?_⟩
  intro τ ε provider lookup final
  exact Evaluation.mirrors_evaluateIn final hf {}

/-- A residual that is pruned by absorption, and a table that fails at the second variable. -/
theorem Formula.progress_commutes_with_duality_absorbed :
    let f : Formula String := .conj (.neg (.var "a"))
      (.conj (.next (.var "b")) (.eventually (.disj (.var "c") (.next (.var "b")))))
    let obs : String → Option Bool := fun _ ↦ some false
    let table : Bindings String := [("a", .value false), ("c", .probe [.error "broken"])]
    let run := f.dual.evaluate (.ok table) (Bindings.lookups "no reading").opposite false
    f.isUntilFree = true ∧
      f.dual = .disj (.neg (.var "a"))
        (.disj (.next (.var "b")) (.always (.conj (.var "c") (.next (.var "b"))))) ∧
      f.dual.progress (Option.map not ∘ obs) false = .residual (.var "b") ∧
      f.dual.run false ([obs, obs].map (Option.map not ∘ ·)) = .verdict true ∧
      run.1 = .error "broken" ∧ run.2.asked = ["a", "c"] := by
  intro f obs table run
  have hf : f.isUntilFree = true := rfl
  obtain ⟨hstep, hrun, hdemand⟩ := progress_commutes_with_duality hf
  have hmirror : run = _ := hdemand (.ok table) (Bindings.lookups "no reading") false
  refine ⟨hf, rfl, (hstep obs false).trans (by decide), (hrun [obs, obs] false).trans (by decide),
    ?_, ?_⟩
  · rw [hmirror]
    decide
  · rw [hmirror]
    decide

end TemporalMonitor
