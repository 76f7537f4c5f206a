import TemporalMonitor.Oracle
import TemporalMonitor.Proofs.Growth

/-!
# Residuals that share the formula

Most of what a step leaves behind was there before it. An evaluation can therefore hold a residual
as a reference into the formula under evaluation, and copy only what is new (`Held`). It then asks
again and again whether an operand was left as it is, and for a reference this is decided by its
position alone: two formulas at different positions are taken to be different, even if they are
equal.

This module runs one evaluator under two ways of holding residuals (`Storage`): `sharing` as
described, and `cloning`, which copies every formula and compares copies. A reference that comes out
of the evaluation of a formula points to that formula or to one strictly inside it
(`Held.PointsInto`), and no formula is equal to one strictly inside it. So positions decide equality
wherever the evaluator asks for it, and both ways give what `Formula.evaluateIn` gives
(`tracks_interpret`).
-/

namespace TemporalMonitor

variable {α τ ε : Type}

/-! ### Positions and references -/

/-- The way from a formula to one inside it: the operand to go to, at each operator. -/
abbrev Position := List Nat

namespace Formula

/-- The formula at a position. -/
def at? (f : Formula α) : Position → Option (Formula α)
  | [] => some f
  | i :: p => f.operands[i]?.bind (·.at? p)

@[simp]
theorem at?_nil (f : Formula α) : f.at? [] = some f :=
  rfl

theorem at?_append (f : Formula α) (p q : Position) :
    f.at? (p ++ q) = (f.at? p).bind (·.at? q) := by
  induction p generalizing f with
  | nil => rfl
  | cons i p ih =>
    rw [List.cons_append, at?, at?]
    cases f.operands[i]? with
    | none => rfl
    | some g => exact ih g

theorem depth_le_of_at? {f g : Formula α} {p : Position} (h : f.at? p = some g) :
    g.depth + p.length ≤ f.depth := by
  induction p generalizing f with
  | nil => exact (congrArg depth (Option.some.inj h)).ge
  | cons i p ih =>
    obtain ⟨k, hk, hg⟩ := Option.bind_eq_some_iff.1 h
    have hlt := depth_lt_of_mem_operands (List.mem_of_getElem? hk)
    have hle := ih hg
    rw [List.length_cons]
    omega

/-- No formula is equal to one strictly inside it. -/
theorem at?_eq_some_self_iff {f : Formula α} {p : Position} : f.at? p = some f ↔ p = [] := by
  refine ⟨fun h ↦ List.length_eq_zero_iff.1 ?_, fun h ↦ h ▸ rfl⟩
  have hdepth := depth_le_of_at? h
  omega

end Formula

/-- A reference into a formula. -/
structure Reference (root : Formula α) where
  /-- Where it points to. -/
  position : Position
  /-- The formula there. -/
  target : Formula α
  /-- There is such a formula. -/
  at?_eq : root.at? position = some target

namespace Reference

variable {root : Formula α}

/-- The reference to the whole formula. -/
def whole (root : Formula α) : Reference root := ⟨[], root, rfl⟩

/-- The reference to an operand of what a reference points to. -/
def operand (r : Reference root) (i : Nat) (f : Formula α) (h : r.target.operands[i]? = some f) :
    Reference root where
  position := r.position ++ [i]
  target := f
  at?_eq := by rw [Formula.at?_append, r.at?_eq, Option.bind_some, Formula.at?, h]; rfl

theorem isPrefix_operand (r : Reference root) (i : Nat) (f : Formula α)
    (h : r.target.operands[i]? = some f) : r.position <+: (r.operand i f h).position :=
  List.prefix_append _ _

/-- A reference below another one points to a formula inside of what the other one points to. -/
theorem exists_at?_of_isPrefix {r q : Reference root} (h : r.position <+: q.position) :
    ∃ p, q.position = r.position ++ p ∧ r.target.at? p = some q.target := by
  obtain ⟨p, hp⟩ := h
  refine ⟨p, hp.symm, ?_⟩
  have hq := q.at?_eq
  rwa [← hp, Formula.at?_append, r.at?_eq, Option.bind_some] at hq

/-- Below a reference, positions decide equality. -/
theorem position_eq_iff_of_isPrefix {r q : Reference root} (h : r.position <+: q.position) :
    q.position = r.position ↔ q.target = r.target := by
  obtain ⟨p, hp, htarget⟩ := exists_at?_of_isPrefix h
  rw [hp, List.append_right_eq_self, ← Formula.at?_eq_some_self_iff (f := r.target), htarget,
    Option.some_inj]

end Reference

/-! ### Residuals and how they are held -/

/-- A residual as an evaluation holds it. -/
inductive Held (root : Formula α) where
  /-- A part of the formula under evaluation, where it is. -/
  | borrowed (r : Reference root)
  /-- A formula of its own. -/
  | owned (f : Formula α)

/-- The residual itself. -/
def Held.formula {root : Formula α} : Held root → Formula α
  | borrowed r => r.target
  | owned f => f

/-- A progression whose residual is held. -/
inductive HeldProgression (root : Formula α) where
  | verdict (b : Bool)
  | residual (h : Held root)

namespace HeldProgression

variable {root : Formula α}

/-- The progression, with a residual of its own. -/
def progression : HeldProgression root → Progression α
  | verdict b => .verdict b
  | residual h => .residual h.formula

end HeldProgression

/-- A way of holding parts of the formula under evaluation, and of telling whether a residual is the
formula that it stems from. -/
structure Storage (root : Formula α) where
  /-- How a part of the formula is held. -/
  lend : Reference root → Held root
  /-- Whether a residual is what the reference points to. -/
  unchanged : Held root → Reference root → Bool

namespace Storage

variable {root : Formula α} [DecidableEq α]

/-- Parts of the formula are borrowed. What is borrowed is compared by position. -/
def sharing : Storage root where
  lend := .borrowed
  unchanged
    | .borrowed r, original => r.position = original.position
    | .owned f, original => f = original.target

/-- Parts of the formula are copied, and all formulas are compared as such. -/
def cloning : Storage root where
  lend r := .owned r.target
  unchanged h original := h.formula = original.target

end Storage

/-- A question that an evaluation asks: is the residual what the reference points to? -/
structure Comparison (root : Formula α) where
  /-- The residual. -/
  residual : Held root
  /-- The reference to the formula that it stems from. -/
  original : Reference root

/-! ### Evaluation with residuals that are held -/

/-- Evaluations that record the comparisons that they make, also when they fail. -/
abbrev Watched (root : Formula α) (τ ε : Type) :=
  ExceptT ε (StateM (Session α τ × List (Comparison root)))

namespace Watched

variable {root : Formula α} {β : Type}

/-- An evaluation that makes no comparison. -/
def ofEvaluation (m : Evaluation α τ ε β) : Watched root τ ε β :=
  ExceptT.mk fun (s, comparisons) ↦
    let (result, s) := m.run.run s
    (result, s, comparisons)

/-- Compares a residual with the formula that it stems from. -/
def compare (st : Storage root) (h : Held root) (original : Reference root) :
    Watched root τ ε Bool := do
  modify fun (s, comparisons) ↦ (s, comparisons ++ [⟨h, original⟩])
  return st.unchanged h original

end Watched

section Interpreter

variable {root : Formula α} [DecidableEq α]

/-- The one of two residuals that already stands for both, if there is one. -/
def Connective.pruneHeld (c : Connective) (l r : Held root) : Option (Held root) :=
  if l.formula = r.formula || c.hasOperand l.formula r.formula ||
      c.dual.hasOperand r.formula l.formula then some l
  else if c.hasOperand r.formula l.formula || c.dual.hasOperand l.formula r.formula then some r
  else none

/-- Joins two residuals. -/
def Connective.joinHeld (c : Connective) (l r : Held root) : Held root :=
  (c.pruneHeld l r).getD (.owned (c.apply l.formula r.formula))

namespace Storage

open Watched

variable (st : Storage root)

/-- A negation, from its operand: a residual that is the operand leaves the negation as it is. -/
def negate (here sub : Reference root) :
    HeldProgression root → Watched root τ ε (HeldProgression root)
  | .verdict b => pure (.verdict !b)
  | .residual h => do
    if ← compare st h sub then return .residual (st.lend here)
    else return .residual (.owned (.neg h.formula))

/-- Two residuals of the operands of a connective: residuals that are the operands leave the
connective as it is. -/
def merge (c : Connective) (here left right : Reference root) (l r : Held root) :
    Watched root τ ε (HeldProgression root) :=
  match c.pruneHeld l r with
  | some h => pure (.residual h)
  | none => do
    if ← compare st l left then
      if ← compare st r right then return .residual (st.lend here)
      else return .residual (.owned (c.apply l.formula r.formula))
    else return .residual (.owned (c.apply l.formula r.formula))

/-- A connective, from the evaluations of its operands. -/
def connective (c : Connective) (here left right : Reference root)
    (m m' : Watched root τ ε (HeldProgression root)) :
    Watched root τ ε (HeldProgression root) := do
  match ← m with
  | .verdict b => if b = c.unit then m' else return .verdict b
  | .residual l =>
    match ← m' with
    | .verdict b => return if b = c.unit then .residual l else .verdict b
    | .residual r => st.merge c here left right l r

/-- An operator over time, from its operand: a residual that is the operand leaves the operator as
it is, and another one is joined with it. -/
def overTime (c : Connective) (here sub : Reference root) (final : Bool) :
    HeldProgression root → Watched root τ ε (HeldProgression root)
  | .verdict b => pure (if b = c.unit && !final then .residual (st.lend here) else .verdict b)
  | .residual h => do
    if ← compare st h sub then return .residual (st.lend here)
    else return .residual (c.joinHeld h (st.lend here))

/-- Evaluates the formula that a reference points to. -/
def interpret (provider : Except ε τ) (lookup : Lookup α τ ε) (final : Bool) :
    (f : Formula α) → (here : Reference root) → here.target = f →
      Watched root τ ε (HeldProgression root)
  | .const b, _, _ => pure (.verdict b)
  | .var a, here, _ => do
    match ← ofEvaluation (Evaluation.value provider lookup a) with
    | some b => pure (.verdict b)
    | none => pure (.residual (st.lend here))
  | .neg f, here, h => do
    let sub := here.operand 0 f (congrArg (·.operands[0]?) h)
    st.negate here sub (← interpret provider lookup final f sub rfl)
  | .conj f g, here, h =>
    let left := here.operand 0 f (congrArg (·.operands[0]?) h)
    let right := here.operand 1 g (congrArg (·.operands[1]?) h)
    st.connective .conj here left right (interpret provider lookup final f left rfl)
      (interpret provider lookup final g right rfl)
  | .disj f g, here, h =>
    let left := here.operand 0 f (congrArg (·.operands[0]?) h)
    let right := here.operand 1 g (congrArg (·.operands[1]?) h)
    st.connective .disj here left right (interpret provider lookup final f left rfl)
      (interpret provider lookup final g right rfl)
  | .next f, here, h =>
    pure (.residual (st.lend (here.operand 0 f (congrArg (·.operands[0]?) h))))
  | .eventually f, here, h => do
    let sub := here.operand 0 f (congrArg (·.operands[0]?) h)
    st.overTime .disj here sub final (← interpret provider lookup final f sub rfl)
  | .always f, here, h => do
    let sub := here.operand 0 f (congrArg (·.operands[0]?) h)
    st.overTime .conj here sub final (← interpret provider lookup final f sub rfl)
  | .strongUntil f g, here, h => do
    let left := here.operand 0 f (congrArg (·.operands[0]?) h)
    let right := here.operand 1 g (congrArg (·.operands[1]?) h)
    match ← interpret provider lookup final g right rfl with
    | .verdict true => pure (.verdict true)
    | .verdict false =>
      if final then pure (.verdict false)
      else match ← interpret provider lookup final f left rfl with
        | .verdict false => pure (.verdict false)
        | _ => pure (.residual (st.lend here))
    | .residual _ => pure (.residual (st.lend here))

end Storage

end Interpreter

/-! ### What a storage has to keep -/

namespace Storage

variable {root : Formula α}

/-- A condition on residuals, by what they are residuals of, under which the storage tells
equality. -/
structure Keeps (st : Storage root) (Inv : Reference root → Held root → Prop) : Prop where
  /-- What is lent is the formula. -/
  formula_lend : ∀ r, (st.lend r).formula = r.target
  /-- What is lent meets the condition. -/
  lend : ∀ r, Inv r (st.lend r)
  /-- So does a formula of its own. -/
  owned : ∀ r f, Inv r (.owned f)
  /-- So does a residual of an operand. -/
  mono : ∀ {r q h}, r.position <+: q.position → Inv q h → Inv r h
  /-- Residuals that meet the condition are compared as formulas. -/
  unchanged_iff : ∀ {r h}, Inv r h → (st.unchanged h r = true ↔ h.formula = r.target)

end Storage

/-- What is borrowed is the formula that the reference points to, or a part of it. -/
def Held.PointsInto {root : Formula α} (here : Reference root) : Held root → Prop
  | borrowed r => here.position <+: r.position
  | owned _ => True

namespace Storage

variable {root : Formula α} [DecidableEq α]

theorem keeps_sharing : (sharing : Storage root).Keeps Held.PointsInto where
  formula_lend _ := rfl
  lend _ := List.prefix_rfl
  owned _ _ := trivial
  mono {r q h} hbelow hinv := by
    cases h with
    | borrowed p => exact hbelow.trans hinv
    | owned f => trivial
  unchanged_iff {r h} hinv := by
    cases h with
    | borrowed q => exact decide_eq_true_iff.trans (Reference.position_eq_iff_of_isPrefix hinv)
    | owned f => exact decide_eq_true_iff

theorem keeps_cloning : (cloning : Storage root).Keeps fun _ _ ↦ True where
  formula_lend _ := rfl
  lend _ := trivial
  owned _ _ := trivial
  mono _ _ := trivial
  unchanged_iff _ := decide_eq_true_iff

end Storage

/-! ### Evaluation with residuals of one's own -/

/-- Two evaluations do the same: they ask the same of the table and fail alike, and otherwise their
results are related. The first one also makes comparisons, all of which meet a condition. -/
def Watched.Tracks {root : Formula α} {β γ : Type} (C : Comparison root → Prop)
    (R : β → γ → Prop) (m : Watched root τ ε β) (m' : Evaluation α τ ε γ) : Prop :=
  ∀ s comparisons, ∃ s' made, (∀ c ∈ made, C c) ∧
    ((∃ e, m.run.run (s, comparisons) = (.error e, s', comparisons ++ made) ∧
        m'.run.run s = (.error e, s')) ∨
      ∃ b b', m.run.run (s, comparisons) = (.ok b, s', comparisons ++ made) ∧
        m'.run.run s = (.ok b', s') ∧ R b b')

namespace Watched

variable {root : Formula α} {C : Comparison root → Prop} {β γ δ η : Type}

theorem Tracks.pure {R : β → γ → Prop} {b : β} {b' : γ} (h : R b b') :
    Tracks C R (Pure.pure b : Watched root τ ε β) (Pure.pure b') := by
  refine fun s comparisons ↦ ⟨s, [], fun c hc ↦ absurd hc List.not_mem_nil,
    Or.inr ⟨b, b', ?_, rfl, h⟩⟩
  rw [List.append_nil]
  rfl

theorem Tracks.bind {R : β → γ → Prop} {Q : δ → η → Prop} {m : Watched root τ ε β}
    {m' : Evaluation α τ ε γ} {k : β → Watched root τ ε δ} {k' : γ → Evaluation α τ ε η}
    (hm : Tracks C R m m') (hk : ∀ b b', R b b' → Tracks C Q (k b) (k' b')) :
    Tracks C Q (m >>= k) (m' >>= k') := by
  intro s comparisons
  obtain ⟨s₁, made₁, hmade₁, ⟨e, hrun, hrun'⟩ | ⟨b, b', hrun, hrun', hb⟩⟩ := hm s comparisons
  · exact ⟨s₁, made₁, hmade₁, Or.inl ⟨e, Evaluation.run_bind_of_error hrun,
      Evaluation.run_bind_of_error hrun'⟩⟩
  · obtain ⟨s₂, made₂, hmade₂, hk⟩ := hk b b' hb s₁ (comparisons ++ made₁)
    rw [← Evaluation.run_bind_of_ok hrun, ← Evaluation.run_bind_of_ok hrun',
      List.append_assoc] at hk
    exact ⟨s₂, made₁ ++ made₂, fun c hc ↦ (List.mem_append.1 hc).elim (hmade₁ c) (hmade₂ c), hk⟩

/-- What asks the table only is tracked as it is. -/
theorem tracks_ofEvaluation (m : Evaluation α τ ε β) :
    Tracks C (· = ·) (ofEvaluation m : Watched root τ ε β) m := by
  intro s comparisons
  refine ⟨(m.run.run s).2, [], fun c hc ↦ absurd hc List.not_mem_nil, ?_⟩
  have hrun : (ofEvaluation m : Watched root τ ε β).run.run (s, comparisons) =
      ((m.run.run s).1, (m.run.run s).2, comparisons) := rfl
  rw [hrun, List.append_nil]
  rcases m.run.run s with ⟨e | b, s'⟩
  · exact Or.inl ⟨e, rfl, rfl⟩
  · exact Or.inr ⟨b, b, rfl, rfl, rfl⟩

end Watched

/-- The storage answers the comparison as if formulas were compared. -/
def Comparison.IsDecidedBy {root : Formula α} (st : Storage root) (c : Comparison root) : Prop :=
  st.unchanged c.residual c.original = true ↔ c.residual.formula = c.original.target

/-- A progression and one whose residual is held, as a residual of what the reference points to. -/
inductive HeldProgression.Represents {root : Formula α} (Inv : Reference root → Held root → Prop)
    (here : Reference root) : HeldProgression root → Progression α → Prop
  | verdict (b : Bool) : Represents Inv here (.verdict b) (.verdict b)
  | residual {h : Held root} {f : Formula α} (inv : Inv here h) (formula_eq : h.formula = f) :
      Represents Inv here (.residual h) (.residual f)

namespace Storage.Keeps

open Watched

variable {root : Formula α} {st : Storage root} {Inv : Reference root → Held root → Prop}
  {β γ : Type}

/-- A comparison asks nothing of the table, and chooses as if formulas were compared. -/
theorem tracks_compare (hst : st.Keeps Inv) {h : Held root} {original : Reference root}
    (hinv : Inv original h) {R : β → γ → Prop} {m₁ m₂ : Watched root τ ε β}
    {m' : Evaluation α τ ε γ}
    (h₁ : h.formula = original.target → Tracks (·.IsDecidedBy st) R m₁ m')
    (h₂ : h.formula ≠ original.target → Tracks (·.IsDecidedBy st) R m₂ m') :
    Tracks (·.IsDecidedBy st) R
      (do if ← compare st h original then m₁ else m₂ : Watched root τ ε β) m' := by
  have hdecided : Comparison.IsDecidedBy st ⟨h, original⟩ := hst.unchanged_iff hinv
  have hbranch : Tracks (·.IsDecidedBy st) R
      (if st.unchanged h original = true then m₁ else m₂) m' := by
    split_ifs with hb
    · exact h₁ (hdecided.1 hb)
    · exact h₂ fun heq ↦ hb (hdecided.2 heq)
  intro s comparisons
  obtain ⟨s', made, hmade, hrun⟩ := hbranch s (comparisons ++ [⟨h, original⟩])
  have hcompare : (compare st h original : Watched root τ ε Bool).run.run (s, comparisons) =
      (.ok (st.unchanged h original), s, comparisons ++ [⟨h, original⟩]) := rfl
  rw [List.append_assoc, List.singleton_append] at hrun
  exact ⟨s', ⟨h, original⟩ :: made, List.forall_mem_cons.2 ⟨hdecided, hmade⟩,
    Evaluation.run_bind_of_ok hcompare ▸ hrun⟩

/-- What a storage lends stands for the formula. -/
theorem represents_lend (hst : st.Keeps Inv) {here r : Reference root} {f : Formula α}
    (hbelow : here.position <+: r.position) (hf : r.target = f) :
    HeldProgression.Represents Inv here (.residual (st.lend r)) (.residual f) :=
  .residual (hst.mono hbelow (hst.lend r)) ((hst.formula_lend r).trans hf)

/-- What represents the progression of an operand also does so for the operator. -/
theorem represents_mono (hst : st.Keeps Inv) {here sub : Reference root}
    (hbelow : here.position <+: sub.position) {p : HeldProgression root} {q : Progression α}
    (hp : p.Represents Inv sub q) : p.Represents Inv here q := by
  cases hp with
  | verdict b => exact .verdict b
  | residual hinv hf => exact .residual (hst.mono hbelow hinv) hf

theorem tracks_negate (hst : st.Keeps Inv) {here sub : Reference root}
    (hhere : here.target = .neg sub.target) {p : HeldProgression root} {q : Progression α}
    (hp : p.Represents Inv sub q) :
    Tracks (·.IsDecidedBy st) (HeldProgression.Represents Inv here)
      (st.negate here sub p : Watched root τ ε _) (pure q.negate) := by
  cases hp with
  | verdict b => exact .pure (.verdict !b)
  | @residual h f hinv hf =>
    refine hst.tracks_compare hinv (fun heq ↦ .pure ?_) fun _ ↦
      .pure (.residual (hst.owned here _) (congrArg Formula.neg hf))
    exact hst.represents_lend List.prefix_rfl (by rw [hhere, ← heq, hf])

variable [DecidableEq α]

theorem represents_joinHeld (hst : st.Keeps Inv) (c : Connective) {here : Reference root}
    {l r : Held root} (hl : Inv here l) (hr : Inv here r) :
    HeldProgression.Represents Inv here (.residual (c.joinHeld l r))
      (.residual (c.join l.formula r.formula)) := by
  rw [Connective.joinHeld, Connective.pruneHeld, Connective.join, Connective.prune]
  split_ifs
  · exact .residual hl rfl
  · exact .residual hr rfl
  · exact .residual (hst.owned here _) rfl

theorem tracks_merge (hst : st.Keeps Inv) (c : Connective) {here left right : Reference root}
    (hhere : here.target = c.apply left.target right.target)
    (hleft : here.position <+: left.position) (hright : here.position <+: right.position)
    {l r : Held root} (hl : Inv left l) (hr : Inv right r) :
    Tracks (·.IsDecidedBy st) (HeldProgression.Represents Inv here)
      (st.merge c here left right l r : Watched root τ ε _)
      (pure (.residual (c.join l.formula r.formula))) := by
  have hjoin := hst.represents_joinHeld c (hst.mono hleft hl) (hst.mono hright hr)
  rw [Connective.joinHeld] at hjoin
  rw [Storage.merge]
  cases hprune : c.pruneHeld l r with
  | some h =>
    rw [hprune] at hjoin
    exact .pure hjoin
  | none =>
    rw [hprune] at hjoin
    refine hst.tracks_compare hl (fun heq ↦ ?_) fun _ ↦ .pure hjoin
    refine hst.tracks_compare hr (fun heq' ↦ .pure ?_) fun _ ↦ .pure hjoin
    -- nothing was pruned, so the two operands as they were make up the formula as it was
    cases hjoin with
    | residual _ happly =>
      refine hst.represents_lend List.prefix_rfl ?_
      rw [hhere, ← happly, ← heq, ← heq']
      rfl

/-- The right operand is evaluated unless the left one settles the connective. -/
theorem tracks_connective (hst : st.Keeps Inv) (c : Connective)
    {here left right : Reference root} (hhere : here.target = c.apply left.target right.target)
    (hleft : here.position <+: left.position) (hright : here.position <+: right.position)
    {m m' : Watched root τ ε (HeldProgression root)} {n n' : Evaluation α τ ε (Progression α)}
    (hm : Tracks (·.IsDecidedBy st) (HeldProgression.Represents Inv left) m n)
    (hm' : Tracks (·.IsDecidedBy st) (HeldProgression.Represents Inv right) m' n') :
    Tracks (·.IsDecidedBy st) (HeldProgression.Represents Inv here)
      (st.connective c here left right m m')
      (do
        let p ← n
        if p = .verdict (!c.unit) then pure p else return .combine c p (← n')) := by
  refine hm.bind fun p q hp ↦ ?_
  cases hp with
  | verdict b =>
    have hverdict : (Progression.verdict b : Progression α) = .verdict (!c.unit) ↔ b ≠ c.unit := by
      rw [Progression.verdict.injEq, Bool.eq_not]
    show Tracks _ _ (if b = c.unit then m' else pure (.verdict b)) _
    by_cases hb : b = c.unit
    · rw [if_pos hb, if_neg fun h ↦ hverdict.1 h hb, ← bind_pure m']
      refine hm'.bind fun p' q' hp' ↦ .pure ?_
      rw [Progression.combine, if_pos hb]
      exact hst.represents_mono hright hp'
    · rw [if_neg hb, if_pos (hverdict.2 hb)]
      exact .pure (.verdict b)
  | @residual l f hl hf =>
    rw [if_neg (by simp)]
    refine hm'.bind fun p' q' hp' ↦ ?_
    cases hp' with
    | verdict b =>
      have hb : HeldProgression.Represents Inv here (if b = c.unit then .residual l else .verdict b)
          (.combine c (.residual f) (.verdict b)) := by
        rw [Progression.combine]
        split_ifs
        · exact .residual (hst.mono hleft hl) hf
        · exact .verdict b
      exact .pure hb
    | @residual r g hr hg =>
      subst hf hg
      exact hst.tracks_merge c hhere hleft hright hl hr

theorem tracks_overTime (hst : st.Keeps Inv) (c : Connective) {here sub : Reference root}
    {whole : Formula α} (hhere : here.target = whole) (hsub : here.position <+: sub.position)
    (final : Bool) {p : HeldProgression root} {q : Progression α} (hp : p.Represents Inv sub q) :
    Tracks (·.IsDecidedBy st) (HeldProgression.Represents Inv here)
      (st.overTime c here sub final p : Watched root τ ε _)
      (pure (.unroll c whole sub.target final q)) := by
  have hwhole := hst.represents_lend List.prefix_rfl hhere
  cases hp with
  | verdict b =>
    rw [Storage.overTime, Progression.unroll]
    split_ifs
    · exact .pure hwhole
    · exact .pure (.verdict b)
  | @residual h f hinv hf =>
    subst hf
    rw [Progression.unroll]
    refine hst.tracks_compare hinv (fun heq ↦ .pure ?_) fun hne ↦ .pure ?_
    · rw [if_pos heq]
      exact hwhole
    · rw [if_neg hne]
      have hjoin := hst.represents_joinHeld c (hst.mono hsub hinv) (hst.lend here)
      rwa [hst.formula_lend, hhere] at hjoin

/-- **Evaluation with residuals that are held tracks evaluation with residuals of one's own.** -/
theorem tracks_interpret (hst : st.Keeps Inv) (provider : Except ε τ) (lookup : Lookup α τ ε)
    (final : Bool) (f : Formula α) (here : Reference root) (hf : here.target = f) :
    Tracks (·.IsDecidedBy st) (HeldProgression.Represents Inv here)
      (st.interpret provider lookup final f here hf) (f.evaluateIn provider lookup final) := by
  induction f generalizing here with
  | const b => exact .pure (.verdict b)
  | var a =>
    refine (tracks_ofEvaluation _).bind fun v v' hv ↦ ?_
    subst hv
    cases v with
    | none => exact .pure (hst.represents_lend List.prefix_rfl hf)
    | some b => exact .pure (.verdict b)
  | neg f ih => exact (ih _ rfl).bind fun p q hp ↦ hst.tracks_negate hf hp
  | conj f g ihf ihg =>
    exact hst.tracks_connective .conj hf (here.isPrefix_operand _ _ _)
      (here.isPrefix_operand _ _ _) (ihf _ rfl) (ihg _ rfl)
  | disj f g ihf ihg =>
    exact hst.tracks_connective .disj hf (here.isPrefix_operand _ _ _)
      (here.isPrefix_operand _ _ _) (ihf _ rfl) (ihg _ rfl)
  | next f _ => exact .pure (hst.represents_lend (here.isPrefix_operand _ _ _) rfl)
  | eventually f ih =>
    exact (ih _ rfl).bind fun p q hp ↦
      hst.tracks_overTime .disj hf (here.isPrefix_operand _ _ _) final hp
  | always f ih =>
    exact (ih _ rfl).bind fun p q hp ↦
      hst.tracks_overTime .conj hf (here.isPrefix_operand _ _ _) final hp
  | strongUntil f g ihf ihg =>
    refine (ihg _ rfl).bind fun q q' hq ↦ ?_
    have hself := hst.represents_lend List.prefix_rfl hf
    rcases hq with ⟨_ | _⟩ | _
    · cases final with
      | true => exact .pure (.verdict false)
      | false =>
        refine (ihf _ rfl).bind fun p p' hp ↦ ?_
        rcases hp with ⟨_ | _⟩ | _
        · exact .pure (.verdict false)
        · exact .pure hself
        · exact .pure hself
    · exact .pure (.verdict true)
    · exact .pure hself

end Storage.Keeps

namespace Storage

variable {root : Formula α} [DecidableEq α]

/-- Evaluates what a reference points to, from a session on: the result, the session afterwards, and
the comparisons made. -/
def evaluateAt (st : Storage root) (provider : Except ε τ) (lookup : Lookup α τ ε) (final : Bool)
    (here : Reference root) (s : Session α τ) :
    Except ε (HeldProgression root) × Session α τ × List (Comparison root) :=
  (st.interpret provider lookup final here.target here rfl).run.run (s, [])

/-- What an evaluation gives, in terms of the evaluation with residuals of one's own. -/
theorem Keeps.evaluateAt {st : Storage root} {Inv : Reference root → Held root → Prop}
    (hst : st.Keeps Inv) (provider : Except ε τ) (lookup : Lookup α τ ε) (final : Bool)
    (here : Reference root) (s : Session α τ) :
    let run := st.evaluateAt provider lookup final here s
    (here.target.evaluateIn provider lookup final).run.run s =
        (run.1.map HeldProgression.progression, run.2.1) ∧
      (∀ c ∈ run.2.2, c.IsDecidedBy st) ∧ ∀ h, run.1 = .ok (.residual h) → Inv here h := by
  intro run
  obtain ⟨s', made, hmade, htracks⟩ :=
    hst.tracks_interpret provider lookup final here.target here rfl s []
  have hrun : run = (st.interpret provider lookup final here.target here rfl).run.run (s, []) := rfl
  obtain ⟨e, hheld, hown⟩ | ⟨p, q, hheld, hown, hp⟩ := htracks
  · rw [hown, hrun, hheld]
    exact ⟨rfl, hmade, fun h hh ↦ by cases hh⟩
  · rw [hown, hrun, hheld]
    cases hp with
    | verdict b => exact ⟨rfl, hmade, fun h hh ↦ by cases hh⟩
    | @residual h f hinv hf =>
      subst hf
      refine ⟨rfl, hmade, ?_⟩
      rintro _ ⟨⟩
      exact hinv

/-- **Comparing positions decides equality.** Evaluating any part of a formula, from any session on,
whatever the table answers: a residual that is borrowed is that part or one strictly inside it, each
comparison comes out as if formulas had been compared, and the result and the session are those of
an evaluation that copies all formulas, and of `Formula.evaluateIn`. -/
theorem sharing_agrees_with_cloning (here : Reference root) (provider : Except ε τ)
    (lookup : Lookup α τ ε) (final : Bool) (s : Session α τ) :
    let shared := sharing.evaluateAt provider lookup final here s
    let cloned := cloning.evaluateAt provider lookup final here s
    (∀ r, shared.1 = .ok (.residual (.borrowed r)) →
      ∃ p, r.position = here.position ++ p ∧ here.target.at? p = some r.target ∧
        (r.target = here.target ↔ p = [])) ∧
    (∀ c ∈ shared.2.2, sharing.unchanged c.residual c.original = true ↔
      c.residual.formula = c.original.target) ∧
    (shared.1.map HeldProgression.progression, shared.2.1) =
      (cloned.1.map HeldProgression.progression, cloned.2.1) ∧
    (shared.1.map HeldProgression.progression, shared.2.1) =
      (here.target.evaluateIn provider lookup final).run.run s := by
  intro shared cloned
  obtain ⟨hshared, hdecided, hinto⟩ := keeps_sharing.evaluateAt provider lookup final here s
  obtain ⟨hcloned, -, -⟩ := keeps_cloning.evaluateAt provider lookup final here s
  refine ⟨fun r hr ↦ ?_, hdecided, hshared.symm.trans hcloned, hshared.symm⟩
  obtain ⟨p, hp, htarget⟩ := Reference.exists_at?_of_isPrefix (hinto _ hr)
  refine ⟨p, hp, htarget, ?_⟩
  rw [← Formula.at?_eq_some_self_iff (f := here.target), htarget, Option.some_inj]

/-- Both operands leave the same variable behind, at two positions. The first one is kept, and is
compared with the conjunction that it stems from. -/
theorem sharing_agrees_with_cloning_pruned :
    let f : Formula Nat := .conj (.next (.var 0)) (.var 0)
    let here : Reference (.always f) := ⟨[0], f, rfl⟩
    let kept : Reference (.always f) := ⟨[0, 0, 0], .var 0, rfl⟩
    let inner := sharing.evaluateAt (.ok []) State.lookups false here {}
    let outer := sharing.evaluateAt (.ok []) State.lookups false (.whole (.always f)) {}
    inner.1 = .ok (.residual (.borrowed kept)) ∧
      (∃ p, kept.position = here.position ++ p ∧ f.at? p = some kept.target ∧
        (kept.target = f ↔ p = [])) ∧
      ⟨.borrowed kept, here⟩ ∈ outer.2.2 ∧
      (sharing.unchanged (.borrowed kept) here = true ↔ kept.target = f) := by
  intro f here kept inner outer
  have hinner : inner.1 = .ok (.residual (.borrowed kept)) := rfl
  have hcompared : ⟨.borrowed kept, here⟩ ∈ outer.2.2 := List.mem_cons_self
  exact ⟨hinner,
    (sharing_agrees_with_cloning here (.ok []) State.lookups false {}).1 kept hinner, hcompared,
    (sharing_agrees_with_cloning (.whole (.always f)) (.ok []) State.lookups false {}).2.1 _
      hcompared⟩

end Storage

end TemporalMonitor
