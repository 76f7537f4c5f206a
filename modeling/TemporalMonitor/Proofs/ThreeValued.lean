import Mathlib.Data.Finset.Lattice.Fold
import Mathlib.Order.Lattice
import TemporalMonitor.Proofs.Residual

/-!
# The three-valued meaning of a run

A run over finitely many partial states ends true, false or open. This module gives the same value
by recursion on the formula alone (`Formula.value`), where truth values form the chain
`no < unsettled < yes`, so that meet and join are the strong Kleene connectives, and proves that
runs compute it (`truth_run`). There is no restriction on the formula or on what the states observe.

The proof rests on one equation, `value_cons`: the value of a formula on some states is the value of
its progression through the first of them, with the residual valued on the others. A residual that
has no state left is open whatever it says (`Formula.pending`), which is a reading as well; so the
last state, final or not, is no special case for the connectives.

A `strongUntil` is the one operator whose operands are valued at single states: the step that
decides it looks at nothing but its own state (`untilValue`).
-/

namespace TemporalMonitor

universe u

/-- The truth values of a run. -/
inductive Truth where
  /-- The formula is settled as false. -/
  | no
  /-- The formula is open. -/
  | unsettled
  /-- The formula is settled as true. -/
  | yes
  deriving DecidableEq, Repr

namespace Truth

/-- The place of a truth value in the chain. -/
def rank : Truth → Nat
  | no => 0
  | unsettled => 1
  | yes => 2

theorem rank_injective : Function.Injective rank := by
  intro a b h
  cases a <;> cases b <;> simp_all [rank]

instance : LinearOrder Truth := LinearOrder.lift' rank rank_injective

instance : BoundedOrder Truth where
  top := yes
  le_top a := by cases a <;> decide
  bot := no
  bot_le a := by cases a <;> decide

theorem top_eq_yes : (⊤ : Truth) = yes :=
  rfl

theorem bot_eq_no : (⊥ : Truth) = no :=
  rfl

/-- Kleene negation. -/
def not : Truth → Truth
  | no => yes
  | unsettled => unsettled
  | yes => no

/-- A settled truth value. -/
def ofBool (b : Bool) : Truth := bif b then yes else no

end Truth

/-- How a run ended: with a verdict or open. -/
def Progression.truth {α : Type u} : Progression α → Truth
  | verdict b => Truth.ofBool b
  | residual _ => .unsettled

/-- The value of a `strongUntil` whose operands have the values `left` and `right` at a single
state, given whether that state is final. It is decided at the first state at which the right
operand is true (then it is true), or at which the right operand is false while the state is final
or the left operand is false (then it is false). An open right operand decides nothing, and an open
left operand is as good as a true one. -/
def untilValue {σ : Type u} (final : Bool) (left right : Bool → σ → Truth) : List σ → Truth
  | [] => .unsettled
  | s :: rest =>
    let last := final && rest.isEmpty
    match right last s with
    | .yes => .yes
    | .no => if last || left last s = .no then .no else untilValue final left right rest
    | .unsettled => untilValue final left right rest

namespace Formula

variable {α : Type u}

/-- The value of a formula on the partial states of a run, in order; `final` tells whether the last
of them ends the trace. -/
def value (final : Bool) : Formula α → List (α → Option Bool) → Truth
  | const b, _ => Truth.ofBool b
  | var a, w => (w.findSome? (· a)).elim .unsettled Truth.ofBool
  | neg f, w => (f.value final w).not
  | conj f g, w => f.value final w ⊓ g.value final w
  | disj f g, w => f.value final w ⊔ g.value final w
  | next f, w => if w.tail = [] then .unsettled else f.value final w.tail
  | eventually f, w =>
    ((Finset.range w.length).sup fun i ↦ f.value final (w.drop i)) ⊔
      (if final then .no else .unsettled)
  | always f, w =>
    ((Finset.range w.length).inf fun i ↦ f.value final (w.drop i)) ⊓
      (if final then .yes else .unsettled)
  | strongUntil f g, w =>
    untilValue final (fun last s ↦ f.value last [s]) (fun last s ↦ g.value last [s]) w

/-- The value of a residual on the states that are left: open if there are none. -/
def pending (final : Bool) (w : List (α → Option Bool)) (f : Formula α) : Truth :=
  if w = [] then .unsettled else f.value final w

@[simp]
theorem pending_nil (final : Bool) (f : Formula α) : pending final [] f = .unsettled :=
  rfl

@[simp]
theorem pending_cons (final : Bool) (s : α → Option Bool) (w : List (α → Option Bool))
    (f : Formula α) : pending final (s :: w) f = f.value final (s :: w) :=
  rfl

/-- What is left is a reading, also when nothing is left: then all formulas are open, and the
connectives keep them open. -/
theorem reading_pending (final : Bool) (w : List (α → Option Bool)) :
    Reading Truth.not (pending final w) where
  compl_boundOf b := by cases b <;> rfl
  neg f := by cases w <;> rfl
  conj f g := by
    cases w with
    | nil => exact (inf_idem _).symm
    | cons s w => rfl
  disj f g := by
    cases w with
    | nil => exact (sup_idem _).symm
    | cons s w => rfl

/-- Without a state left, a progression has the truth value with which the run ends. -/
theorem eval_pending_nil (final : Bool) (p : Progression α) :
    p.eval (pending final []) = p.truth := by
  cases p <;> rfl

/-! ### The temporal operators, one state at a time -/

theorem value_next_cons (final : Bool) (f : Formula α) (s : α → Option Bool)
    (w : List (α → Option Bool)) : (next f).value final (s :: w) = pending final w f := by
  cases w <;> rfl

/-- The suffixes of a sequence are the sequence itself and the suffixes of its tail. -/
theorem range_length_cons {σ : Type u} (s : σ) (w : List σ) :
    Finset.range (s :: w).length = insert 0 ((Finset.range w.length).image (· + 1)) := by
  rw [List.length_cons, Finset.range_add_one', Finset.map_eq_image]
  rfl

theorem value_eventually_cons (final : Bool) (f : Formula α) (s : α → Option Bool)
    (w : List (α → Option Bool)) :
    (eventually f).value final (s :: w) = f.value final (s :: w) ⊔
      (if final && w.isEmpty then ⊥ else pending final w (eventually f)) := by
  rw [value, range_length_cons, Finset.sup_insert, Finset.sup_image, sup_assoc]
  cases w with
  | nil => cases final <;> rfl
  | cons t w => rw [List.isEmpty_cons, Bool.and_false]; rfl

theorem value_always_cons (final : Bool) (f : Formula α) (s : α → Option Bool)
    (w : List (α → Option Bool)) :
    (always f).value final (s :: w) = f.value final (s :: w) ⊓
      (if final && w.isEmpty then ⊤ else pending final w (always f)) := by
  rw [value, range_length_cons, Finset.inf_insert, Finset.inf_image, inf_assoc]
  cases w with
  | nil => cases final <;> rfl
  | cons t w => rw [List.isEmpty_cons, Bool.and_false]; rfl

/-- An operand that holds counts towards `eventually`, also while both are open. -/
theorem pending_sup_eventually (final : Bool) (w : List (α → Option Bool)) (f : Formula α) :
    pending final w f ⊔ pending final w (eventually f) = pending final w (eventually f) := by
  cases w with
  | nil => exact sup_idem _
  | cons s w => rw [pending_cons, pending_cons, value_eventually_cons, sup_left_idem]

theorem pending_inf_always (final : Bool) (w : List (α → Option Bool)) (f : Formula α) :
    pending final w f ⊓ pending final w (always f) = pending final w (always f) := by
  cases w with
  | nil => exact inf_idem _
  | cons s w => rw [pending_cons, pending_cons, value_always_cons, inf_left_idem]

theorem value_strongUntil_cons (final : Bool) (f g : Formula α) (s : α → Option Bool)
    (w : List (α → Option Bool)) :
    (strongUntil f g).value final (s :: w) =
      match g.value (final && w.isEmpty) [s] with
      | .yes => .yes
      | .no =>
        if (final && w.isEmpty) || f.value (final && w.isEmpty) [s] = .no then .no
        else pending final w (strongUntil f g)
      | .unsettled => pending final w (strongUntil f g) := by
  cases w <;> rfl

/-! ### Progression computes the value -/

variable [DecidableEq α]

/-- At the final step unrolling keeps the truth value of the operand. -/
theorem truth_unroll_final (c : Connective) (whole sub : Formula α) (p : Progression α) :
    (Progression.unroll c whole sub true p).truth = p.truth := by
  cases p with
  | verdict b => rw [Progression.unroll, Bool.not_true, Bool.and_false, if_neg Bool.false_ne_true]
  | residual r => rfl

/-- Unrolling at any state: the operand, joined with what is left of the formula itself. Nothing is
left of it at the final state. -/
theorem eval_unroll_pending (c : Connective) {whole sub : Formula α} {final : Bool}
    {w : List (α → Option Bool)}
    (h : c.op (pending final w sub) (pending final w whole) = pending final w whole)
    (p : Progression α) :
    (Progression.unroll c whole sub (final && w.isEmpty) p).eval (pending final w) =
      c.op (p.eval (pending final w))
        (if final && w.isEmpty then boundOf c.unit else pending final w whole) := by
  cases hlast : final && w.isEmpty with
  | true =>
    obtain rfl : w = [] := List.isEmpty_iff.1 (Bool.and_eq_true_iff.1 hlast).2
    rw [eval_pending_nil, truth_unroll_final, if_pos rfl, c.op_comm, c.op_boundOf, if_pos rfl,
      eval_pending_nil]
  | false =>
    rw [if_neg Bool.false_ne_true]
    exact (reading_pending final w).eval_unroll c h p

/-- **One state at a time.** The value of a formula is the value of its progression through the
first state, with the residual valued on the states that are left. -/
theorem value_cons (final : Bool) (f : Formula α) (s : α → Option Bool)
    (w : List (α → Option Bool)) :
    f.value final (s :: w) = (f.progress s (final && w.isEmpty)).eval (pending final w) := by
  induction f generalizing final w with
  | const b => rfl
  | var a =>
    rw [value, progress, List.findSome?_cons]
    cases s a with
    | some b => rfl
    | none => cases w <;> rfl
  | neg f ih =>
    rw [progress, (reading_pending final w).eval_negate, ← ih]
    rfl
  | conj f g ihf ihg =>
    rw [progress, (reading_pending final w).eval_combine, ← ihf, ← ihg]
    rfl
  | disj f g ihf ihg =>
    rw [progress, (reading_pending final w).eval_combine, ← ihf, ← ihg]
    rfl
  | next f _ => exact value_next_cons final f s w
  | eventually f ih =>
    rw [value_eventually_cons, ih, progress]
    exact (eval_unroll_pending .disj (pending_sup_eventually final w f) _).symm
  | always f ih =>
    rw [value_always_cons, ih, progress]
    exact (eval_unroll_pending .conj (pending_inf_always final w f) _).symm
  | strongUntil f g ihf ihg =>
    -- the operands are valued at `s` alone, where a residual of theirs is open
    have hf : ∀ last, f.value last [s] = (f.progress s last).truth := fun last ↦ by
      rw [ihf, List.isEmpty_nil, Bool.and_true, eval_pending_nil]
    have hg : ∀ last, g.value last [s] = (g.progress s last).truth := fun last ↦ by
      rw [ihg, List.isEmpty_nil, Bool.and_true, eval_pending_nil]
    rw [value_strongUntil_cons, hf, hg, progress]
    cases g.progress s (final && w.isEmpty) with
    | residual r => rfl
    | verdict b =>
      cases b with
      | true => rfl
      | false =>
        cases final && w.isEmpty with
        | true => rfl
        | false =>
          rcases f.progress s false with b | r
          · cases b <;> rfl
          · rfl

/-- A run ends with the value of the formula on its states; a run over no state is open. -/
theorem truth_run (final : Bool) (w : List (α → Option Bool)) (f : Formula α) :
    (f.run final w).truth = pending final w f := by
  induction w generalizing f with
  | nil => rfl
  | cons s w ih =>
    rw [run, pending_cons, value_cons]
    cases f.progress s (final && w.isEmpty) with
    | verdict b => rfl
    | residual r => exact ih r

/-- **Runs compute the three-valued meaning.** On every non-empty sequence of partial states, final
at its end or not, iterated progression ends with the verdict that is the value of the formula, and
ends open exactly when the value is `unsettled`. -/
theorem truth_run_cons (final : Bool) (f : Formula α) (s : α → Option Bool)
    (w : List (α → Option Bool)) :
    (f.run final (s :: w)).truth = f.value final (s :: w) :=
  truth_run final (s :: w) f

/-- An operand that looks ahead never decides a `strongUntil`, not even at the end of a trace. -/
example : (strongUntil (var 0) (next (var 1)) : Formula Nat).value true
    [fun _ ↦ some true, fun _ ↦ some true] = .unsettled := by
  decide

end Formula

end TemporalMonitor
