import Mathlib.Data.Finset.Lattice.Fold
import Mathlib.Dynamics.FixedPoints.Basic
import TemporalMonitor.Proofs.Residual

/-!
# Residuals on a constant stream

When the same partial state is fed to a formula over and over, its residual reaches a fixed point
after no more steps than the formula is deep (`run_replicate_depth`), so it cannot grow with the
stream.

A step is a function on progressions that keeps verdicts (`Progression.through`), and a run over
copies of one state iterates it (`run_replicate`). An operator reaches its fixed point when its
operands have reached theirs; only `next` costs a step of its own.

* A negation follows its operand step by step (`through_negate`).
* What becomes of a connective is, from the first step on, what becomes of one operand or the
  connective of both (`through_combine`): an operand that was pruned away is not missed.
* `eventually` and `always` join a copy of themselves with each new residual of the operand, one on
  top of the other (`Piled`). Pruning does not take the pile apart, since the formula itself never
  occurs in a residual of its operand (`hereditary_not_mem_subformulas`). What it does is to refuse
  a residual that is already on top, which is the case once the operand stands still.
-/

namespace TemporalMonitor

universe u

variable {α : Type u}

namespace Formula

/-- The formulas that stand somewhere in a formula, itself first. -/
def subformulas : Formula α → List (Formula α)
  | const b => [const b]
  | var a => [var a]
  | neg f => neg f :: f.subformulas
  | conj f g => conj f g :: (f.subformulas ++ g.subformulas)
  | disj f g => disj f g :: (f.subformulas ++ g.subformulas)
  | next f => next f :: f.subformulas
  | eventually f => eventually f :: f.subformulas
  | always f => always f :: f.subformulas
  | strongUntil f g => strongUntil f g :: (f.subformulas ++ g.subformulas)

theorem mem_subformulas_self (f : Formula α) : f ∈ f.subformulas := by
  cases f <;> exact List.mem_cons_self

theorem size_le_of_mem_subformulas {f g : Formula α} (h : g ∈ f.subformulas) :
    g.size ≤ f.size := by
  induction f <;> grind [subformulas, size]

end Formula

namespace Connective

/-- The temporal operator that unrolls by the connective. -/
def overTime : Connective → Formula α → Formula α
  | conj => .always
  | disj => .eventually

theorem not_mem_subformulas_of_overTime (c : Connective) (f : Formula α) :
    c.overTime f ∉ f.subformulas := by
  intro h
  have hsize := Formula.size_le_of_mem_subformulas h
  cases c <;> exact Nat.not_succ_le_self _ hsize

theorem mem_subformulas_apply {c : Connective} {g l r : Formula α}
    (h : g ∈ l.subformulas ∨ g ∈ r.subformulas) : g ∈ (c.apply l r).subformulas := by
  cases c <;> exact List.mem_cons_of_mem _ (List.mem_append.2 h)

variable [DecidableEq α]

theorem progress_apply (c : Connective) (s : α → Option Bool) (final : Bool) (l r : Formula α) :
    (c.apply l r).progress s final = .combine c (l.progress s final) (r.progress s final) := by
  cases c <;> rfl

theorem progress_overTime (c : Connective) (s : α → Option Bool) (final : Bool) (f : Formula α) :
    (c.overTime f).progress s final =
      .unroll c (c.overTime f) f final (f.progress s final) := by
  cases c <;> rfl

omit [DecidableEq α] in
/-- That an operator over time does not occur is passed on to residuals. -/
theorem hereditary_not_mem_subformulas (c : Connective) (f : Formula α) :
    Hereditary fun g : Formula α ↦ c.overTime f ∉ g.subformulas where
  const b := by cases c <;> simp [overTime, Formula.subformulas]
  neg := by cases c <;> simp [overTime, Formula.subformulas]
  conj := by cases c <;> simp [overTime, Formula.subformulas]
  disj := by cases c <;> simp [overTime, Formula.subformulas]
  next h hg := h (List.mem_cons_of_mem _ hg)
  eventually h hg := h (List.mem_cons_of_mem _ hg)
  always h hg := h (List.mem_cons_of_mem _ hg)

theorem not_mem_subformulas_residual {c : Connective} {f g r : Formula α}
    (hg : c.overTime f ∉ g.subformulas) {s : α → Option Bool}
    (hr : g.progress s false = .residual r) : c.overTime f ∉ r.subformulas := by
  have hres := (c.hereditary_not_mem_subformulas f).progress s false hg
  rwa [hr] at hres

theorem hasOperand_apply (c : Connective) (l r f : Formula α) :
    c.hasOperand (c.apply l r) f = (decide (l = f) || decide (r = f)) := by
  cases c <;> rfl

theorem dual_hasOperand_apply (c : Connective) (l r f : Formula α) :
    c.dual.hasOperand (c.apply l r) f = false := by
  cases c <;> rfl

theorem hasOperand_overTime (c d : Connective) (f g : Formula α) :
    c.hasOperand (d.overTime f) g = false := by
  cases c <;> cases d <;> rfl

/-- A residual without `g` is not pruned against a formula with `g`, unless it is one of its
operands. -/
theorem join_of_not_mem_subformulas {c : Connective} {g l r : Formula α}
    (hl : g ∉ l.subformulas) (hr : g ∈ r.subformulas) (hdual : c.dual.hasOperand r l = false) :
    c.join l r = if c.hasOperand r l then r else c.apply l r := by
  have hne : l ≠ r := by
    rintro rfl
    exact hl hr
  have hoperand : ∀ d : Connective, d.hasOperand l r = false := by
    intro d
    refine Bool.eq_false_iff.2 fun h ↦ ?_
    obtain ⟨k, rfl | rfl⟩ := hasOperand_iff.1 h
    · exact hl (mem_subformulas_apply (Or.inl hr))
    · exact hl (mem_subformulas_apply (Or.inr hr))
  rw [join, prune, hoperand c, hoperand c.dual, hdual, decide_eq_false hne, Bool.or_false,
    Bool.or_false, Bool.or_false, if_neg Bool.false_ne_true]
  split_ifs <;> rfl

end Connective

namespace Progression

variable [DecidableEq α]

/-- What becomes of a progression through a state that is not the final one. -/
def through (s : α → Option Bool) : Progression α → Progression α
  | verdict b => verdict b
  | residual f => f.progress s false

theorem through_negate (s : α → Option Bool) (p : Progression α) :
    p.negate.through s = (p.through s).negate := by
  cases p <;> rfl

/-- What becomes of a connective: what becomes of one of its operands, or the connective of
both. -/
theorem through_combine (c : Connective) (s : α → Option Bool) (p q : Progression α) :
    (combine c p q).through s = p.through s ∨ (combine c p q).through s = q.through s ∨
      (combine c p q).through s = combine c (p.through s) (q.through s) := by
  rcases p with b | l
  · rw [combine]
    split_ifs
    · exact Or.inr (Or.inl rfl)
    · exact Or.inl rfl
  · rcases q with b | r
    · rw [combine]
      split_ifs
      · exact Or.inl rfl
      · exact Or.inr (Or.inl rfl)
    · show (residual (c.join l r)).through s = _ ∨ (residual (c.join l r)).through s = _ ∨
        (residual (c.join l r)).through s = _
      rcases c.join_cases l r with h | h | h <;> rw [h]
      · exact Or.inl rfl
      · exact Or.inr (Or.inl rfl)
      · exact Or.inr (Or.inr (c.progress_apply s false l r))

open Function in
/-- Operands that stand still make a connective that stands still. -/
theorem isFixedPt_combine (c : Connective) {s : α → Option Bool} {p q : Progression α}
    (hp : IsFixedPt (through s) p) (hq : IsFixedPt (through s) q) :
    IsFixedPt (through s) (combine c p q) := by
  rcases p with b | l
  · rw [combine]
    split_ifs
    · exact hq
    · exact hp
  · rcases q with b | r
    · rw [combine]
      split_ifs
      · exact hp
      · exact hq
    · show IsFixedPt (through s) (residual (c.join l r))
      rcases c.join_cases l r with h | h | h
      · rwa [h]
      · rwa [h]
      · -- the operands come back as they were, and are joined as they were
        have hstep : (c.apply l r).progress s false = residual (c.join l r) := by
          rw [c.progress_apply, show l.progress s false = residual l from hp,
            show r.progress s false = residual r from hq]
          rfl
        rw [h]
        exact hstep.trans (congrArg residual h)

end Progression

namespace Formula

open Function Progression

variable [DecidableEq α]

/-- A run over copies of one state iterates the step through that state. -/
theorem run_replicate (s : α → Option Bool) (n : Nat) (f : Formula α) :
    f.run false (List.replicate n s) = (through s)^[n] (.residual f) := by
  induction n generalizing f with
  | zero => rfl
  | succ n ih =>
    rw [List.replicate_succ, run, Bool.false_and, iterate_succ_apply]
    show _ = (through s)^[n] (f.progress s false)
    cases f.progress s false with
    | verdict b => exact (iterate_fixed (rfl : through s (.verdict b) = .verdict b) n).symm
    | residual r => exact ih r

/-- The formula stands still after `n` steps through copies of the state. -/
def StillAfter (s : α → Option Bool) (n : Nat) (f : Formula α) : Prop :=
  IsFixedPt (through s) ((through s)^[n] (.residual f))

theorem StillAfter.iterate_eq {s : α → Option Bool} {n k : Nat} {f : Formula α}
    (h : StillAfter s n f) (hk : n ≤ k) :
    (through s)^[k] (.residual f) = (through s)^[n] (.residual f) := by
  obtain ⟨d, rfl⟩ := Nat.exists_eq_add_of_le' hk
  rw [iterate_add_apply]
  exact iterate_fixed h d

theorem StillAfter.mono {s : α → Option Bool} {n k : Nat} {f : Formula α}
    (h : StillAfter s n f) (hk : n ≤ k) : StillAfter s k f := by
  rw [StillAfter, h.iterate_eq hk]
  exact h

/-! ### Negations and connectives -/

theorem stillAfter_neg {s : α → Option Bool} {n : Nat} {f : Formula α} (h : StillAfter s n f) :
    StillAfter s n (neg f) := by
  have hconj : Semiconj negate (through s) (through s) :=
    fun p ↦ (through_negate s p).symm
  have hiterate : (through s)^[n] (.residual (neg f)) = ((through s)^[n] (.residual f)).negate :=
    (hconj.iterate_right n (.residual f)).symm
  rw [StillAfter, hiterate]
  exact h.map hconj

/-- After at least one step, a connective is what has become of one operand or of both. -/
theorem iterate_apply_cases (c : Connective) (s : α → Option Bool) (f g : Formula α) (n : Nat) :
    let p := (through s)^[n + 1] (.residual f)
    let q := (through s)^[n + 1] (.residual g)
    let h := (through s)^[n + 1] (.residual (c.apply f g))
    h = p ∨ h = q ∨ h = combine c p q := by
  induction n with
  | zero => exact Or.inr (Or.inr (c.progress_apply s false f g))
  | succ n ih =>
    simp only [iterate_succ_apply' (through s) (n + 1)]
    rcases ih with h | h | h <;> rw [h]
    · exact Or.inl rfl
    · exact Or.inr (Or.inl rfl)
    · exact through_combine c s _ _

theorem stillAfter_apply (c : Connective) {s : α → Option Bool} {n : Nat} {f g : Formula α}
    (hf : StillAfter s (n + 1) f) (hg : StillAfter s (n + 1) g) :
    StillAfter s (n + 1) (c.apply f g) := by
  rw [StillAfter]
  rcases iterate_apply_cases c s f g n with h | h | h <;> rw [h]
  · exact hf
  · exact hg
  · exact isFixedPt_combine c hf hg

/-! ### Temporal operators -/

theorem stillAfter_next {s : α → Option Bool} {n : Nat} {f : Formula α} (h : StillAfter s n f) :
    StillAfter s (n + 1) (next f) := by
  rw [StillAfter, iterate_succ_apply]
  exact h

/-- A `strongUntil` is decided by the first step or left as it is. -/
theorem stillAfter_strongUntil (s : α → Option Bool) (f g : Formula α) :
    StillAfter s 1 (strongUntil f g) := by
  have hstep : (∃ b, (strongUntil f g).progress s false = .verdict b) ∨
      (strongUntil f g).progress s false = .residual (strongUntil f g) := by
    rw [progress]
    split
    · exact Or.inl ⟨true, rfl⟩
    · rw [if_neg Bool.false_ne_true]
      split
      · exact Or.inl ⟨false, rfl⟩
      · exact Or.inr rfl
    · exact Or.inr rfl
  show IsFixedPt (through s) ((strongUntil f g).progress s false)
  rcases hstep with ⟨b, h⟩ | h <;> rw [h]
  · rfl
  · exact h

/-- The residual of a formula `f` over time is a pile of `r`, on top, and `k`: `k` turns into the
pile in one step, and the whole formula occurs in it, but not in the top. -/
structure Piled (c : Connective) (s : α → Option Bool) (f r k : Formula α) : Prop where
  /-- What lies below turns into the pile. -/
  step : k.progress s false = .residual (c.apply r k)
  /-- The top is a residual of the operand, so the whole formula does not occur in it. -/
  top : c.overTime f ∉ r.subformulas
  /-- The whole formula lies at the bottom. -/
  below : c.overTime f ∈ k.subformulas

namespace Piled

variable {c : Connective} {s : α → Option Bool} {f r k : Formula α}

theorem progress_eq (h : Piled c s f r k) :
    (c.apply r k).progress s false =
      combine c (r.progress s false) (.residual (c.apply r k)) := by
  rw [c.progress_apply, h.step]

/-- A residual that is not on top yet comes on top; one that is on top is pruned. -/
theorem join_eq (h : Piled c s f r k) {r' : Formula α} (hr' : c.overTime f ∉ r'.subformulas) :
    c.join r' (c.apply r k) = if r = r' then c.apply r k else c.apply r' (c.apply r k) := by
  have hbelow : k ≠ r' := by
    rintro rfl
    exact hr' h.below
  rw [Connective.join_of_not_mem_subformulas hr' (Connective.mem_subformulas_apply (Or.inr h.below))
    (c.dual_hasOperand_apply r k r'), c.hasOperand_apply, decide_eq_false hbelow, Bool.or_false]
  simp only [decide_eq_true_eq]

/-- A pile stands still when its top does. -/
theorem progress_of_still (h : Piled c s f r k) (hr : r.progress s false = .residual r) :
    (c.apply r k).progress s false = .residual (c.apply r k) := by
  rw [h.progress_eq, hr, combine, h.join_eq h.top, if_pos rfl]

/-- One step of a pile: the new residual of the operand comes on top, or else the pile stands still
afterwards. -/
theorem step_cases (h : Piled c s f r k) :
    IsFixedPt (through s) ((c.apply r k).progress s false) ∨
      ∃ r', r.progress s false = .residual r' ∧
        (c.apply r k).progress s false = .residual (c.apply r' (c.apply r k)) ∧
        Piled c s f r' (c.apply r k) := by
  have hstep := h.progress_eq
  cases hr : r.progress s false with
  | verdict b =>
    rw [hr, combine] at hstep
    split_ifs at hstep <;> rw [hstep]
    · exact Or.inl hstep
    · exact Or.inl rfl
  | residual r' =>
    have htop := Connective.not_mem_subformulas_residual h.top hr
    rw [hr, combine, h.join_eq htop] at hstep
    split_ifs at hstep
    · rw [hstep]
      exact Or.inl hstep
    · exact Or.inr ⟨r', rfl, hstep, hstep, htop, Connective.mem_subformulas_apply (Or.inr h.below)⟩

end Piled

/-- The first step of a formula over time begins the pile, unless the formula stands still. -/
theorem progress_overTime_cases (c : Connective) (s : α → Option Bool) (f : Formula α) :
    IsFixedPt (through s) ((c.overTime f).progress s false) ∨
      ∃ r, f.progress s false = .residual r ∧
        (c.overTime f).progress s false = .residual (c.apply r (c.overTime f)) ∧
        Piled c s f r (c.overTime f) := by
  have hstep := c.progress_overTime s false f
  cases hf : f.progress s false with
  | verdict b =>
    rw [hf, unroll] at hstep
    split_ifs at hstep <;> rw [hstep]
    · exact Or.inl hstep
    · exact Or.inl rfl
  | residual r =>
    have htop := Connective.not_mem_subformulas_residual (c.not_mem_subformulas_of_overTime f) hf
    have hjoin : c.join r (c.overTime f) = c.apply r (c.overTime f) := by
      rw [Connective.join_of_not_mem_subformulas htop (mem_subformulas_self _)
        (c.dual.hasOperand_overTime c f r), c.hasOperand_overTime, if_neg Bool.false_ne_true]
    rw [hf, unroll, hjoin] at hstep
    split_ifs at hstep
    · rw [hstep]
      exact Or.inl hstep
    · exact Or.inr ⟨r, rfl, hstep, hstep, htop, mem_subformulas_self _⟩

/-- After at least one step, a formula over time stands still, or it is a pile with what has become
of the operand on top. -/
theorem iterate_overTime_cases (c : Connective) (s : α → Option Bool) (f : Formula α) (n : Nat) :
    IsFixedPt (through s) ((through s)^[n + 1] (.residual (c.overTime f))) ∨
      ∃ r k, (through s)^[n + 1] (.residual f) = .residual r ∧
        (through s)^[n + 1] (.residual (c.overTime f)) = .residual (c.apply r k) ∧
        Piled c s f r k := by
  induction n with
  | zero =>
    rcases progress_overTime_cases c s f with h | ⟨r, hr, hk, hpile⟩
    · exact Or.inl h
    · exact Or.inr ⟨r, c.overTime f, hr, hk, hpile⟩
  | succ n ih =>
    rw [iterate_succ_apply' _ (n + 1), iterate_succ_apply' _ (n + 1)]
    rcases ih with h | ⟨r, k, hr, hk, hpile⟩
    · rw [h.eq]
      exact Or.inl h
    · rw [hr, hk]
      rcases hpile.step_cases with h | ⟨r', hr', hk', hpile'⟩
      · exact Or.inl h
      · exact Or.inr ⟨r', c.apply r k, hr', hk', hpile'⟩

theorem stillAfter_overTime (c : Connective) {s : α → Option Bool} {n : Nat} {f : Formula α}
    (hf : StillAfter s (n + 1) f) : StillAfter s (n + 1) (c.overTime f) := by
  rcases iterate_overTime_cases c s f n with h | ⟨r, k, hr, hk, hpile⟩
  · exact h
  · rw [StillAfter, hr] at hf
    rw [StillAfter, hk]
    exact hpile.progress_of_still hf

/-! ### The bound -/

/-- **Every formula stands still after as many steps as it is deep.** -/
theorem stillAfter_depth (s : α → Option Bool) (f : Formula α) : StillAfter s f.depth f := by
  -- the depth counts a step for every operator, which `next` alone needs
  have hbinary : ∀ (c : Connective) (g h : Formula α), StillAfter s g.depth g →
      StillAfter s h.depth h → StillAfter s (max g.depth h.depth + 1) (c.apply g h) :=
    fun c g h hg hh ↦ stillAfter_apply c (hg.mono (by omega)) (hh.mono (by omega))
  induction f with
  | const b => rfl
  | var a =>
    show IsFixedPt (through s) ((var a).progress s false)
    rw [progress]
    cases h : s a with
    | some b => rfl
    | none =>
      have hprogress : (var a).progress s false = .residual (var a) := by rw [progress, h]
      exact hprogress
  | neg f ih => exact (stillAfter_neg ih).mono (Nat.le_succ _)
  | conj f g ihf ihg => exact hbinary .conj f g ihf ihg
  | disj f g ihf ihg => exact hbinary .disj f g ihf ihg
  | next f ih => exact stillAfter_next ih
  | eventually f ih => exact stillAfter_overTime .disj (ih.mono (Nat.le_succ _))
  | always f ih => exact stillAfter_overTime .conj (ih.mono (Nat.le_succ _))
  | strongUntil f g _ _ => exact (stillAfter_strongUntil s f g).mono (one_le_depth _)

/-- **The residual on a constant stream reaches a fixed point** after at most as many steps as the
formula is deep: by then there is a verdict, or a residual that another step through the same state
gives back unchanged. So the run over any longer stream ends alike, and there is a bound on the size
of the residuals that holds for streams of every length. -/
theorem run_replicate_depth (s : α → Option Bool) (f : Formula α) :
    ((∃ b, f.run false (List.replicate f.depth s) = .verdict b) ∨
        ∃ r, f.run false (List.replicate f.depth s) = .residual r ∧
          r.progress s false = .residual r) ∧
      (∀ n, f.depth ≤ n →
        f.run false (List.replicate n s) = f.run false (List.replicate f.depth s)) ∧
      ∃ bound, ∀ n r, f.run false (List.replicate n s) = .residual r → r.size ≤ bound := by
  have hstill := stillAfter_depth s f
  simp only [run_replicate]
  refine ⟨?_, fun n hn ↦ hstill.iterate_eq hn, ?_⟩
  · rw [StillAfter] at hstill
    cases h : (through s)^[f.depth] (.residual f) with
    | verdict b => exact Or.inl ⟨b, rfl⟩
    | residual r =>
      rw [h] at hstill
      exact Or.inr ⟨r, rfl, hstill⟩
  · -- there are no residuals beyond the first ones
    let sizeAt := fun n ↦ ((through s)^[n] (.residual f)).toFormula.size
    refine ⟨(Finset.range (f.depth + 1)).sup sizeAt, fun n r hr ↦ ?_⟩
    have hmin : (through s)^[n] (.residual f) = (through s)^[min n f.depth] (.residual f) := by
      rcases Nat.le_total n f.depth with h | h
      · rw [Nat.min_eq_left h]
      · rw [Nat.min_eq_right h, hstill.iterate_eq h]
    have hsize : r.size = sizeAt (min n f.depth) := by
      show r.size = ((through s)^[min n f.depth] (.residual f)).toFormula.size
      rw [← hmin, hr]
      rfl
    rw [hsize]
    exact Finset.le_sup (Finset.mem_range.2 (Nat.lt_succ_of_le (Nat.min_le_right n f.depth)))

/-- Two residuals of the operand are piled up, and the third is already on top. -/
theorem run_replicate_depth_unobserved :
    let f : Formula Nat := eventually (next (next (var 0)))
    let s : Nat → Option Bool := fun _ ↦ none
    f.depth = 4 ∧ f.depth ≤ 100 ∧
      f.run false (List.replicate 100 s) =
        .residual (disj (var 0) (disj (next (var 0)) f)) := by
  intro f s
  refine ⟨rfl, by decide, ?_⟩
  rw [(run_replicate_depth s f).2.1 100 (by decide)]
  decide

end Formula

end TemporalMonitor
