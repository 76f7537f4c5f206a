import Mathlib.Data.Stream.Init
import TemporalMonitor.Proofs.Fragment

/-!
# Residuals are exact over infinite traces

The classical meaning of a formula over an infinite sequence of valuations (`Formula.Holds`), and
the theorem that progression preserves it: a trace satisfies a formula if and only if the trace
without its first states satisfies what is left of the formula after these states
(`holds_iff_of_follows`).

States may be partial. A variable that a state leaves unobserved is carried over: its value is the
one at the next step (`Follows`). Only the operands of a `strongUntil` are read at the state itself,
so their variables have to be observed, and they have to be propositional.

Satisfaction at a trace is a reading of formulas in the lattice of propositions. The proof of the
step (`holds_eq_eval_progress`) needs no more than the unrolling of each temporal operator into the
present and the tail of the trace.
-/

namespace TemporalMonitor

universe u

variable {α : Type u}

namespace Formula

/-- Satisfaction of a formula by an infinite sequence of valuations. -/
def Holds : Formula α → Stream' (α → Bool) → Prop
  | const b, _ => b = true
  | var a, σ => σ.head a = true
  | neg f, σ => ¬f.Holds σ
  | conj f g, σ => f.Holds σ ∧ g.Holds σ
  | disj f g, σ => f.Holds σ ∨ g.Holds σ
  | next f, σ => f.Holds σ.tail
  | eventually f, σ => ∃ i, f.Holds (σ.drop i)
  | always f, σ => ∀ i, f.Holds (σ.drop i)
  | strongUntil f g, σ => ∃ i, g.Holds (σ.drop i) ∧ ∀ j < i, f.Holds (σ.drop j)

theorem holds_eventually_iff {f : Formula α} {σ : Stream' (α → Bool)} :
    (eventually f).Holds σ ↔ f.Holds σ ∨ (eventually f).Holds σ.tail :=
  Nat.or_exists_add_one.symm

theorem holds_always_iff {f : Formula α} {σ : Stream' (α → Bool)} :
    (always f).Holds σ ↔ f.Holds σ ∧ (always f).Holds σ.tail :=
  Nat.and_forall_add_one.symm

theorem holds_strongUntil_iff {f g : Formula α} {σ : Stream' (α → Bool)} :
    (strongUntil f g).Holds σ ↔ g.Holds σ ∨ f.Holds σ ∧ (strongUntil f g).Holds σ.tail := by
  refine Nat.or_exists_add_one.symm.trans (or_congr ?_ ?_)
  · exact and_iff_left fun j hj ↦ absurd hj (Nat.not_lt_zero j)
  · -- the first of the steps before the decisive one is the present
    rw [Holds, ← exists_and_left]
    refine exists_congr fun i ↦ ?_
    rw [Nat.forall_lt_succ_left, and_left_comm]
    rfl

theorem reading_holds (σ : Stream' (α → Bool)) :
    Reading Not fun f : Formula α ↦ f.Holds σ where
  compl_boundOf b := by cases b <;> simp [boundOf_eq_prop]
  neg _ := rfl
  conj _ _ := rfl
  disj _ _ := rfl

/-- A progression holds when the formula it amounts to does. -/
theorem eval_holds (σ : Stream' (α → Bool)) (p : Progression α) :
    p.eval (fun f ↦ f.Holds σ) = p.toFormula.Holds σ := by
  rcases p with b | r
  · exact boundOf_eq_prop b
  · rfl

theorem holds_of_isPropositional {f : Formula α} (hf : f.isPropositional = true)
    (σ : Stream' (α → Bool)) : f.Holds σ ↔ f.truthAt σ.head = true := by
  have h := eq_boundOf_truthAt (reading_holds σ) hf (fun b ↦ (boundOf_eq_prop b).symm)
    fun a _ ↦ (boundOf_eq_prop (σ.head a)).symm
  rw [h, boundOf_eq_prop]

end Formula

/-! ### Traces that follow partial states -/

/-- A trace takes, at each step of some partial states, the value that is observed, and carries an
unobserved variable over to the next step. -/
def Follows (σ : Stream' (α → Bool)) (w : List (α → Option Bool)) : Prop :=
  ∀ (i : Nat) (h : i < w.length) (a : α), σ.get i a = ((w.get ⟨i, h⟩) a).getD (σ.get (i + 1) a)

theorem follows_cons {σ : Stream' (α → Bool)} {s : α → Option Bool}
    {w : List (α → Option Bool)} :
    Follows σ (s :: w) ↔ (∀ a, σ.head a = (s a).getD (σ.tail.head a)) ∧ Follows σ.tail w :=
  Nat.forall_lt_succ_left'

/-- A state that observes everything. -/
def observed (v : α → Bool) : α → Option Bool := fun a ↦ some (v a)

theorem follows_take (σ : Stream' (α → Bool)) (k : Nat) : Follows σ ((σ.take k).map observed) := by
  induction k generalizing σ with
  | zero => exact fun i hi ↦ absurd hi (Nat.not_lt_zero i)
  | succ k ih =>
    rw [Stream'.take_succ, List.map_cons, follows_cons]
    exact ⟨fun a ↦ rfl, ih σ.tail⟩

namespace Formula

variable [DecidableEq α]

/-- **The step.** A trace satisfies a formula exactly when its tail satisfies the progression of the
formula through a state that the trace follows. -/
theorem holds_eq_eval_progress {f : Formula α} (hf : f.hasStateUntils = true)
    {s : α → Option Bool} (hs : ∀ a ∈ f.untilVars, (s a).isSome = true)
    {σ : Stream' (α → Bool)} (hσ : ∀ a, σ.head a = (s a).getD (σ.tail.head a)) :
    f.Holds σ = (f.progress s false).eval fun g ↦ g.Holds σ.tail := by
  have hread : Reading Not fun g : Formula α ↦ g.Holds σ.tail := reading_holds σ.tail
  induction f with
  | const b => exact (eval_holds σ.tail (.verdict b)).symm
  | var a =>
    rw [progress, Holds, hσ a]
    cases s a with
    | none => rfl
    | some b => exact (eval_holds σ.tail (.verdict b)).symm
  | neg f ih => rw [progress, hread.eval_negate, ← ih hf hs, Holds]
  | conj f g ihf ihg =>
    rw [hasStateUntils, Bool.and_eq_true] at hf
    obtain ⟨hsf, hsg⟩ := List.forall_mem_append.1 hs
    rw [progress, hread.eval_combine, ← ihf hf.1 hsf, ← ihg hf.2 hsg]
    rfl
  | disj f g ihf ihg =>
    rw [hasStateUntils, Bool.and_eq_true] at hf
    obtain ⟨hsf, hsg⟩ := List.forall_mem_append.1 hs
    rw [progress, hread.eval_combine, ← ihf hf.1 hsf, ← ihg hf.2 hsg]
    rfl
  | next f _ => rfl
  | eventually f ih =>
    have hself : f.Holds σ.tail ∨ (eventually f).Holds σ.tail ↔ (eventually f).Holds σ.tail :=
      or_iff_right_of_imp fun h ↦ holds_eventually_iff.2 (Or.inl h)
    rw [progress, hread.eval_unroll .disj (propext hself), ← ih hf hs]
    exact propext holds_eventually_iff
  | always f ih =>
    have hself : f.Holds σ.tail ∧ (always f).Holds σ.tail ↔ (always f).Holds σ.tail :=
      and_iff_right_of_imp fun h ↦ (holds_always_iff.1 h).1
    rw [progress, hread.eval_unroll .conj (propext hself), ← ih hf hs]
    exact propext holds_always_iff
  | strongUntil f g _ _ =>
    rw [hasStateUntils, Bool.and_eq_true] at hf
    -- both operands are settled by `s`, with their values at the head of the trace
    have hobs : ∀ a ∈ f.vars ++ g.vars, s a = some (σ.head a) := by
      intro a ha
      obtain ⟨b, hb⟩ := Option.isSome_iff_exists.1 (hs a ha)
      rw [hσ a, hb, Option.getD_some]
    obtain ⟨hobsf, hobsg⟩ := List.forall_mem_append.1 hobs
    have hpf := progress_of_isPropositional hf.1 hobsf false
    have hpg := progress_of_isPropositional hf.2 hobsg false
    rw [propext holds_strongUntil_iff, propext (holds_of_isPropositional hf.1 σ),
      propext (holds_of_isPropositional hf.2 σ), progress, hpg, hpf]
    cases g.truthAt σ.head <;> cases f.truthAt σ.head <;> simp [boundOf]

/-- Any number of steps, for all formulas whose `strongUntil`s read no more than the variables in
`vs`; residuals are among them. -/
theorem holds_iff_of_follows {vs : List α} {w : List (α → Option Bool)}
    (hw : ∀ s ∈ w, ∀ a ∈ vs, (s a).isSome = true) {f : Formula α}
    (hf : f.hasStateUntils = true) (hvs : f.untilVars ⊆ vs) {σ : Stream' (α → Bool)}
    (hσ : Follows σ w) : f.Holds σ ↔ (f.after w).Holds (σ.drop w.length) := by
  induction w generalizing f σ with
  | nil => exact Iff.rfl
  | cons s w ih =>
    obtain ⟨hhead, htail⟩ := follows_cons.1 hσ
    have hs : ∀ a ∈ f.untilVars, (s a).isSome = true :=
      fun a ha ↦ hw s List.mem_cons_self a (hvs ha)
    obtain ⟨hf', hvs'⟩ := (hereditary_hasStateUntils vs).progress s false ⟨hf, hvs⟩
    rw [holds_eq_eval_progress hf hs hhead, eval_holds, after_cons]
    exact ih (fun t ht ↦ hw t (List.mem_cons_of_mem s ht)) hf' hvs' htail

/-- **Residuals are exact.** Let the operands of every `strongUntil` be propositional. Then a trace
that follows some partial states, which observe the variables of these operands, satisfies the
formula if and only if the trace after these states satisfies what is left of the formula; so a
verdict that is reached is the truth value of the formula on the trace. When the states observe
everything, what is asked of the trace is nothing but that it starts with them. -/
theorem holds_iff_holds_after {f : Formula α} (hf : f.hasStateUntils = true) :
    (∀ (w : List (α → Option Bool)) (σ : Stream' (α → Bool)),
      (∀ s ∈ w, ∀ a ∈ f.untilVars, (s a).isSome = true) → Follows σ w →
        (f.Holds σ ↔ (f.after w).Holds (σ.drop w.length)) ∧
          ∀ b, f.run false w = .verdict b → (f.Holds σ ↔ b = true)) ∧
      ∀ (k : Nat) (σ : Stream' (α → Bool)),
        f.Holds σ ↔ (f.after ((σ.take k).map observed)).Holds (σ.drop k) := by
  refine ⟨fun w σ hw hσ ↦ ?_, fun k σ ↦ ?_⟩
  · have hafter := holds_iff_of_follows hw hf (List.Subset.refl _) hσ
    refine ⟨hafter, fun b hb ↦ ?_⟩
    rw [hafter, ← toFormula_run, hb]
    rfl
  · have hobs : ∀ s ∈ (σ.take k).map observed, ∀ a ∈ f.untilVars, (s a).isSome = true := by
      intro s hs a _
      obtain ⟨v, -, rfl⟩ := List.mem_map.1 hs
      rfl
    have hafter := holds_iff_of_follows hobs hf (List.Subset.refl _) (follows_take σ k)
    rwa [List.length_map, Stream'.length_take] at hafter

/-- A variable that two states in a row leave unobserved is what remains of the formula. -/
theorem holds_iff_holds_after_unobserved :
    let f : Formula Nat := conj (next (var 0)) (strongUntil (var 1) (var 2))
    let w : List (Nat → Option Bool) :=
      [fun a ↦ if a = 0 then none else some (a == 1), fun a ↦ if a = 0 then none else some true]
    let σ : Stream' (Nat → Bool) := fun i a ↦ decide (a ≤ 1 ∨ 1 ≤ i)
    f.hasStateUntils = true ∧ (∀ s ∈ w, ∀ a ∈ f.untilVars, (s a).isSome = true) ∧ Follows σ w ∧
      f.after w = var 0 ∧ (f.Holds σ ↔ (f.after w).Holds (σ.drop 2)) := by
  intro f w σ
  have hobs : ∀ s ∈ w, ∀ a ∈ f.untilVars, (s a).isSome = true := by decide
  have hσ : Follows σ w := by
    refine follows_cons.2 ⟨fun a ↦ ?_, follows_cons.2 ⟨fun a ↦ ?_, fun i hi ↦ ?_⟩⟩
    · rcases a with - | - | a <;> rfl
    · rcases a with - | a
      · rfl
      · show decide (a + 1 ≤ 1 ∨ 1 ≤ 1) = true
        simp
    · exact absurd hi (Nat.not_lt_zero i)
  exact ⟨rfl, hobs, hσ, by decide, ((holds_iff_holds_after rfl).1 w σ hobs hσ).1⟩

end Formula

end TemporalMonitor
