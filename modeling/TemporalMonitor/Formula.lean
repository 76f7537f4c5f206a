/-!
# Formulas of linear temporal logic

Formulas over an arbitrary type of atomic variables, read over discrete steps, with the operations
that do not depend on any observation: the variables that occur, the two measures `size` and
`depth`, and renaming of variables, pure (`map`) or in a monad (`mapM`).

The strong until of two formulas asks its right operand to come true at some step, and its left
operand to hold at every step before.
-/

namespace TemporalMonitor

universe u v w

/-- A formula of linear temporal logic over variables in `α`. -/
inductive Formula (α : Type u) where
  /-- A truth value. -/
  | const (b : Bool)
  /-- An atomic variable, whose value is observed at each step. -/
  | var (a : α)
  /-- Negation. -/
  | neg (f : Formula α)
  /-- Conjunction. -/
  | conj (f g : Formula α)
  /-- Disjunction. -/
  | disj (f g : Formula α)
  /-- The formula holds from the following step on. -/
  | next (f : Formula α)
  /-- The formula holds now or at a later step. -/
  | eventually (f : Formula α)
  /-- The formula holds now and at every later step. -/
  | always (f : Formula α)
  /-- The right formula holds now or at a later step, and the left one at every step before. -/
  | strongUntil (f g : Formula α)
  deriving DecidableEq, Repr

namespace Formula

variable {α : Type u} {β : Type v}

instance : Inhabited (Formula α) := ⟨.const false⟩

/-- The variables of a formula from left to right, one entry per occurrence. -/
def vars : Formula α → List α
  | const _ => []
  | var a => [a]
  | neg f | next f | eventually f | always f => f.vars
  | conj f g | disj f g | strongUntil f g => f.vars ++ g.vars

/-- The number of nodes of the formula tree. -/
def size : Formula α → Nat
  | const _ | var _ => 1
  | neg f | next f | eventually f | always f => f.size + 1
  | conj f g | disj f g | strongUntil f g => f.size + g.size + 1

/-- The number of nodes on the longest path from the root to a leaf. -/
def depth : Formula α → Nat
  | const _ | var _ => 1
  | neg f | next f | eventually f | always f => f.depth + 1
  | conj f g | disj f g | strongUntil f g => max f.depth g.depth + 1

/-- Renames every variable by `g` and keeps the shape of the formula. -/
def map (g : α → β) : Formula α → Formula β
  | const b => const b
  | var a => var (g a)
  | neg f => neg (f.map g)
  | conj f h => conj (f.map g) (h.map g)
  | disj f h => disj (f.map g) (h.map g)
  | next f => next (f.map g)
  | eventually f => eventually (f.map g)
  | always f => always (f.map g)
  | strongUntil f h => strongUntil (f.map g) (h.map g)

/-- Renames every variable by an action of a monad; the actions run from left to right. -/
def mapM {m : Type v → Type w} [Monad m] (g : α → m β) : Formula α → m (Formula β)
  | const b => pure (const b)
  | var a => var <$> g a
  | neg f => neg <$> f.mapM g
  | conj f h => do return conj (← f.mapM g) (← h.mapM g)
  | disj f h => do return disj (← f.mapM g) (← h.mapM g)
  | next f => next <$> f.mapM g
  | eventually f => eventually <$> f.mapM g
  | always f => always <$> f.mapM g
  | strongUntil f h => do return strongUntil (← f.mapM g) (← h.mapM g)

theorem one_le_size (f : Formula α) : 1 ≤ f.size := by
  cases f <;> simp [size]

theorem one_le_depth (f : Formula α) : 1 ≤ f.depth := by
  cases f <;> simp [depth]

@[simp]
theorem size_map (g : α → β) (f : Formula α) : (f.map g).size = f.size := by
  induction f <;> simp_all [map, size]

@[simp]
theorem depth_map (g : α → β) (f : Formula α) : (f.map g).depth = f.depth := by
  induction f <;> simp_all [map, depth]

@[simp]
theorem vars_map (g : α → β) (f : Formula α) :
    (f.map g).vars = f.vars.map g := by
  induction f <;> simp_all [map, vars]

end Formula

end TemporalMonitor
