import Mathlib.Order.BoundedOrder.Lattice
import Mathlib.Order.ConditionallyCompleteLattice.Basic
import TemporalMonitor.Progression

/-!
# Readings of formulas in a lattice

Residuals are pruned while they are built, so after a few steps a residual has little in common
with the formula it stems from. What pruning relies on are laws of **every** lattice: idempotence
and absorption. Progressions therefore keep their meaning under each reading of formulas that sends
the two connectives to meet and join and negation to some operation that swaps the bounds
(`Reading`); nothing is asked of the temporal operators.

The statements come one per operation on progressions: `eval_negate`, `eval_combine`, and
`eval_unroll` for a step that is followed by others. A semantics of formulas is a reading once its
connectives are known, and then its own proof consists of the laws of its temporal operators.
-/

namespace TemporalMonitor

universe u v

/-- A truth value as a bound of a lattice. -/
def boundOf {L : Type v} [Lattice L] [BoundedOrder L] (b : Bool) : L :=
  bif b then ⊤ else ⊥

section BoundOf

variable {L : Type v} [Lattice L] [BoundedOrder L]

theorem boundOf_and (a b : Bool) : (boundOf (a && b) : L) = boundOf a ⊓ boundOf b := by
  cases a <;> cases b <;> simp [boundOf]

theorem boundOf_or (a b : Bool) : (boundOf (a || b) : L) = boundOf a ⊔ boundOf b := by
  cases a <;> cases b <;> simp [boundOf]

/-- In the lattice of propositions the bound of a truth value says that it is true. -/
theorem boundOf_eq_prop (b : Bool) : (boundOf b : Prop) = (b = true) := by
  cases b <;> simp [boundOf]

end BoundOf

namespace Connective

variable {α : Type u} {L : Type v} [Lattice L]

/-- The connective as an operation of a lattice. -/
def op : Connective → L → L → L
  | conj => fun a b ↦ a ⊓ b
  | disj => fun a b ↦ a ⊔ b

theorem op_self (c : Connective) (a : L) : c.op a a = a := by
  cases c with
  | conj => exact inf_idem a
  | disj => exact sup_idem a

theorem op_comm (c : Connective) (a b : L) : c.op a b = c.op b a := by
  cases c with
  | conj => exact inf_comm a b
  | disj => exact sup_comm a b

/-- An operand that already occurs on one side adds nothing on the other. -/
theorem op_op_self (c : Connective) (a b : L) : c.op a (c.op a b) = c.op a b := by
  cases c with
  | conj => exact inf_left_idem a b
  | disj => exact sup_left_idem a b

/-- Absorption, for both connectives. -/
theorem op_dual_op_self (c : Connective) (a b : L) : c.op a (c.dual.op a b) = a := by
  cases c with
  | conj => exact inf_sup_self
  | disj => exact sup_inf_self

variable [BoundedOrder L]

/-- A truth value on the left: the unit is ignored, the other value settles the outcome. -/
theorem op_boundOf (c : Connective) (b : Bool) (a : L) :
    c.op (boundOf b) a = if b = c.unit then a else boundOf b := by
  cases c <;> cases b <;> simp [op, unit, boundOf]

end Connective

namespace Connective

variable {α : Type u} [DecidableEq α]

/-- A formula has an operand exactly when it applies the connective to it on either side. -/
theorem hasOperand_iff {c : Connective} {compound f : Formula α} :
    c.hasOperand compound f = true ↔ ∃ g, compound = c.apply f g ∨ compound = c.apply g f := by
  cases c <;> cases compound <;> simp [hasOperand, apply, exists_or]

/-- Joining residuals gives one of them, or else applies the connective to both. -/
theorem join_cases (c : Connective) (l r : Formula α) :
    c.join l r = l ∨ c.join l r = r ∨ c.join l r = c.apply l r := by
  rw [join, prune]
  split_ifs
  · exact Or.inl rfl
  · exact Or.inr (Or.inl rfl)
  · exact Or.inr (Or.inr rfl)

end Connective

/-- A reading of formulas in a bounded lattice: connectives are meet and join, and negation is an
operation that swaps the bounds. The temporal operators are left free. -/
structure Reading {α : Type u} {L : Type v} [Lattice L] [BoundedOrder L] (compl : L → L)
    (e : Formula α → L) : Prop where
  /-- Negation swaps the bounds. -/
  compl_boundOf : ∀ b, compl (boundOf b) = boundOf !b
  /-- Negated formulas. -/
  neg : ∀ f, e (.neg f) = compl (e f)
  /-- Conjunctions. -/
  conj : ∀ f g, e (.conj f g) = e f ⊓ e g
  /-- Disjunctions. -/
  disj : ∀ f g, e (.disj f g) = e f ⊔ e g

namespace Progression

variable {α : Type u} {L : Type v} [Lattice L] [BoundedOrder L]

/-- The value of a progression under a reading of its residual. -/
def eval (e : Formula α → L) : Progression α → L
  | verdict b => boundOf b
  | residual f => e f

@[simp]
theorem eval_verdict (e : Formula α → L) (b : Bool) :
    (verdict b : Progression α).eval e = boundOf b :=
  rfl

@[simp]
theorem eval_residual (e : Formula α → L) (f : Formula α) : (residual f).eval e = e f :=
  rfl

end Progression

namespace Reading

variable {α : Type u} {L : Type v} [Lattice L] [BoundedOrder L] {compl : L → L}
  {e : Formula α → L}

theorem apply (he : Reading compl e) (c : Connective) (f g : Formula α) :
    e (c.apply f g) = c.op (e f) (e g) := by
  cases c with
  | conj => exact he.conj f g
  | disj => exact he.disj f g

theorem eval_negate (he : Reading compl e) (p : Progression α) :
    p.negate.eval e = compl (p.eval e) := by
  cases p with
  | verdict b => exact (he.compl_boundOf b).symm
  | residual f => exact he.neg f

variable [DecidableEq α]

/-- An operand is absorbed by a formula that applies the same connective to it. -/
theorem op_of_hasOperand (he : Reading compl e) {c : Connective} {l r : Formula α}
    (h : c.hasOperand l r = true) : c.op (e l) (e r) = e l := by
  obtain ⟨g, rfl | rfl⟩ := Connective.hasOperand_iff.1 h
  · rw [he.apply, c.op_comm, c.op_op_self]
  · rw [he.apply, c.op_comm (e g), c.op_comm, c.op_op_self]

/-- An operand absorbs a formula that applies the dual connective to it. -/
theorem op_of_dual_hasOperand (he : Reading compl e) {c : Connective} {l r : Formula α}
    (h : c.dual.hasOperand r l = true) : c.op (e l) (e r) = e l := by
  obtain ⟨g, rfl | rfl⟩ := Connective.hasOperand_iff.1 h
  · rw [he.apply, c.op_dual_op_self]
  · rw [he.apply, c.dual.op_comm, c.op_dual_op_self]

/-- **Pruning keeps the meaning**: residuals that are joined mean the connective of the two. -/
theorem join (he : Reading compl e) (c : Connective) (l r : Formula α) :
    e (c.join l r) = c.op (e l) (e r) := by
  rw [Connective.join, Connective.prune]
  split_ifs with hl hr
  · -- the left operand is kept
    rw [Bool.or_eq_true, Bool.or_eq_true, decide_eq_true_eq] at hl
    rcases hl with (rfl | h) | h
    · exact (c.op_self (e l)).symm
    · exact (he.op_of_hasOperand h).symm
    · exact (he.op_of_dual_hasOperand h).symm
  · -- the right operand is kept, by the same laws with the sides exchanged
    rw [Bool.or_eq_true] at hr
    rw [c.op_comm]
    rcases hr with h | h
    · exact (he.op_of_hasOperand h).symm
    · exact (he.op_of_dual_hasOperand h).symm
  · exact he.apply c l r

theorem eval_combine (he : Reading compl e) (c : Connective) (p q : Progression α) :
    (Progression.combine c p q).eval e = c.op (p.eval e) (q.eval e) := by
  cases p with
  | verdict b =>
    rw [Progression.eval_verdict, c.op_boundOf, Progression.combine]
    split_ifs <;> rfl
  | residual l =>
    cases q with
    | verdict b =>
      rw [Progression.eval_verdict, c.op_comm, c.op_boundOf, Progression.combine]
      split_ifs <;> rfl
    | residual r => exact he.join c l r

/-- Before the final step, a formula that asks for its operand now or later unrolls into the
progression of the operand and the formula itself. When the operand made no progress it is dropped,
so `whole` has to contain it already. -/
theorem eval_unroll (he : Reading compl e) (c : Connective) {whole sub : Formula α}
    (h : c.op (e sub) (e whole) = e whole) (p : Progression α) :
    (Progression.unroll c whole sub false p).eval e = c.op (p.eval e) (e whole) := by
  cases p with
  | verdict b =>
    rw [Progression.eval_verdict, c.op_boundOf, Progression.unroll]
    by_cases hb : b = c.unit <;> simp [hb]
  | residual r =>
    rw [Progression.unroll, Progression.eval_residual, Progression.eval_residual]
    split_ifs with hr
    · rw [hr, h]
    · exact he.join c r whole

end Reading

end TemporalMonitor
