import TemporalMonitor.Formula

/-!
# Progression

Progressing a formula through one step consumes the observations of that step. The outcome is a
verdict, when no later step can change the truth value, or the residual formula that is left to be
checked from the next step on.

The two connectives are treated alike. Each has a unit, the truth value that it ignores; the other
truth value settles it. Joining two residuals prunes them first: equal operands are kept once, and
an operand that occurs in the other is absorbed by it (`Connective.prune`). The operators
`eventually` and `always` unroll into their operand, joined with the operator itself by disjunction
and by conjunction (`Progression.unroll`).

At the final step of a trace a pending `eventually` or `strongUntil` is settled as false and a
pending `always` as true. A residual that is left after the final step stays open.
-/

namespace TemporalMonitor

universe u

/-- What a formula becomes through a step. -/
inductive Progression (α : Type u) where
  /-- The formula is settled. -/
  | verdict (b : Bool)
  /-- The formula that is left to be checked from the next step on. -/
  | residual (f : Formula α)
  deriving DecidableEq, Repr

/-- The two binary connectives that residuals are joined by. -/
inductive Connective where
  | conj
  | disj
  deriving DecidableEq, Repr

namespace Connective

variable {α : Type u}

/-- The other connective. -/
def dual : Connective → Connective
  | conj => disj
  | disj => conj

/-- The truth value that the connective ignores. -/
def unit : Connective → Bool
  | conj => true
  | disj => false

/-- The connective applied to two formulas. -/
def apply : Connective → Formula α → Formula α → Formula α
  | conj => Formula.conj
  | disj => Formula.disj

/-- Whether `compound` applies the connective and has `f` as an operand. -/
def hasOperand [DecidableEq α] : Connective → (compound f : Formula α) → Bool
  | conj, .conj l r, f => decide (l = f) || decide (r = f)
  | disj, .disj l r, f => decide (l = f) || decide (r = f)
  | _, _, _ => false

/-- The one of two operands that already stands for both, if there is one. An operand absorbs the
other when it applies the connective to it, or when the other applies the dual connective to the
operand. -/
def prune [DecidableEq α] (c : Connective) (l r : Formula α) : Option (Formula α) :=
  if l = r || c.hasOperand l r || c.dual.hasOperand r l then some l
  else if c.hasOperand r l || c.dual.hasOperand l r then some r
  else none

/-- Joins two residuals, pruned where possible. -/
def join [DecidableEq α] (c : Connective) (l r : Formula α) : Formula α :=
  (c.prune l r).getD (c.apply l r)

end Connective

namespace Progression

variable {α : Type u}

/-- The verdict, if the formula is settled. -/
def verdict? : Progression α → Option Bool
  | verdict b => some b
  | residual _ => none

/-- The residual, if the formula is open. -/
def residual? : Progression α → Option (Formula α)
  | verdict _ => none
  | residual f => some f

/-- The progression as a formula: a verdict becomes a constant. -/
def toFormula : Progression α → Formula α
  | verdict b => .const b
  | residual f => f

/-- The truth value at the end of a trace: what is still open counts as false. -/
def finalValue (p : Progression α) : Bool :=
  p.verdict?.getD false

/-- The progression of a negated formula. -/
def negate : Progression α → Progression α
  | verdict b => verdict (!b)
  | residual f => residual (.neg f)

/-- The progression of two formulas joined by a connective. -/
def combine [DecidableEq α] (c : Connective) : Progression α → Progression α → Progression α
  | verdict b, q => if b = c.unit then q else verdict b
  | residual l, verdict b => if b = c.unit then residual l else verdict b
  | residual l, residual r => residual (c.join l r)

/-- The progression of the formula `whole` that asks for its operand `sub` at every step (`conj`)
or at some step (`disj`), from the progression of the operand. -/
def unroll [DecidableEq α] (c : Connective) (whole sub : Formula α) (final : Bool) :
    Progression α → Progression α
  | verdict b => if b = c.unit && !final then residual whole else verdict b
  | residual r => residual (if r = sub then whole else c.join r whole)

end Progression

namespace Formula

variable {α : Type u} [DecidableEq α]

/-- Progresses a formula through a step with the observations `obs`, where `none` stands for a
variable that is not observed. The right operand of a `strongUntil` is judged first, and the left
one only while the right one is false. -/
def progress (obs : α → Option Bool) (final : Bool) : Formula α → Progression α
  | const b => .verdict b
  | var a =>
    match obs a with
    | some b => .verdict b
    | none => .residual (var a)
  | neg f => (f.progress obs final).negate
  | conj f g => .combine .conj (f.progress obs final) (g.progress obs final)
  | disj f g => .combine .disj (f.progress obs final) (g.progress obs final)
  | next f => .residual f
  | eventually f => .unroll .disj (eventually f) f final (f.progress obs final)
  | always f => .unroll .conj (always f) f final (f.progress obs final)
  | strongUntil f g =>
    match g.progress obs final with
    | .verdict true => .verdict true
    | .verdict false =>
      if final then .verdict false
      else match f.progress obs final with
        | .verdict false => .verdict false
        | _ => .residual (strongUntil f g)
    | .residual _ => .residual (strongUntil f g)

end Formula

end TemporalMonitor
