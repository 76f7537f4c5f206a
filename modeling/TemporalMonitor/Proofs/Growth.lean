import TemporalMonitor.Formula.Text
import TemporalMonitor.Proofs.OnDemand
import TemporalMonitor.Proofs.Reading

/-!
# How fast residuals grow

A step joins a copy of every pending `eventually` and `always` with the residual of its operand, so
a residual can be larger than the formula it stems from. One step makes it at most one level deeper,
and its size is at most the size of the formula times its depth (`within_progress`): every level of
the formula adds a copy of what lies below it, and nothing is copied twice within a level.

So the depth grows by at most one with every step of a stream, whatever the tables are
(`LeavesAfter.depth_le`). The depth bounds how deeply the functions on formulas recur, because all
of them call themselves on operands only. This is said without a stack: `nested` runs the body of a
recursive function with a limit on the nesting of its calls, and what happens beyond the limit does
not matter if the limit is the depth of the formula (`RecursWithin`).
-/

namespace TemporalMonitor

universe v w

variable {α : Type}

/-! ### One step -/

namespace Connective

theorem depth_apply (c : Connective) (l r : Formula α) :
    (c.apply l r).depth = max l.depth r.depth + 1 := by
  cases c <;> rfl

theorem size_apply (c : Connective) (l r : Formula α) :
    (c.apply l r).size = l.size + r.size + 1 := by
  cases c <;> rfl

variable [DecidableEq α]

theorem depth_join_le (c : Connective) (l r : Formula α) :
    (c.join l r).depth ≤ max l.depth r.depth + 1 := by
  rcases c.join_cases l r with h | h | h <;> rw [h]
  · omega
  · omega
  · exact (c.depth_apply l r).le

theorem size_join_le (c : Connective) (l r : Formula α) :
    (c.join l r).size ≤ l.size + r.size + 1 := by
  rcases c.join_cases l r with h | h | h <;> rw [h]
  · omega
  · omega
  · exact (c.size_apply l r).le

end Connective

namespace Progression

/-- The residual, if there is one, is at most so deep and so large. -/
def Within (depth size : Nat) : Progression α → Prop
  | verdict _ => True
  | residual r => r.depth ≤ depth ∧ r.size ≤ size

namespace Within

variable {p q : Progression α} {d d' n n' : Nat}

theorem mono (h : p.Within d n) (hd : d ≤ d') (hn : n ≤ n') : p.Within d' n' := by
  cases p with
  | verdict b => trivial
  | residual r => exact ⟨h.1.trans hd, h.2.trans hn⟩

theorem negate (h : p.Within d n) : p.negate.Within (d + 1) (n + 1) := by
  cases p with
  | verdict b => trivial
  | residual r => exact ⟨Nat.succ_le_succ h.1, Nat.succ_le_succ h.2⟩

variable [DecidableEq α]

theorem join (c : Connective) {l r : Formula α} (hl : (residual l).Within d n)
    (hr : (residual r).Within d' n') :
    (residual (c.join l r)).Within (max d d' + 1) (n + n' + 1) := by
  have hdepth := c.depth_join_le l r
  have hsize := c.size_join_le l r
  obtain ⟨hld, hln⟩ := hl
  obtain ⟨hrd, hrn⟩ := hr
  exact ⟨by omega, by omega⟩

theorem combine (c : Connective) (hp : p.Within d n) (hq : q.Within d' n') :
    (Progression.combine c p q).Within (max d d' + 1) (n + n' + 1) := by
  cases p with
  | verdict b =>
    rw [Progression.combine]
    split_ifs
    · exact hq.mono (by omega) (by omega)
    · trivial
  | residual l =>
    cases q with
    | verdict b =>
      rw [Progression.combine]
      split_ifs
      · exact hp.mono (by omega) (by omega)
      · trivial
    | residual r => exact join c hp hq

/-- The formula itself comes on top of what is left of its operand. -/
theorem unroll (c : Connective) (whole sub : Formula α) (final : Bool) (hp : p.Within d n) :
    (Progression.unroll c whole sub final p).Within (max d whole.depth + 1)
      (n + whole.size + 1) := by
  have hwhole : (residual whole).Within whole.depth whole.size := ⟨Nat.le_refl _, Nat.le_refl _⟩
  cases p with
  | verdict b =>
    rw [Progression.unroll]
    split_ifs
    · exact hwhole.mono (by omega) (by omega)
    · trivial
  | residual r =>
    rw [Progression.unroll]
    split_ifs
    · exact hwhole.mono (by omega) (by omega)
    · exact join c hp hwhole

end Within

end Progression

namespace Formula

/-- Two operands, each with its size times its depth, have room under a common operator. -/
theorem size_mul_depth_add_le (f g : Formula α) :
    f.size * f.depth + g.size * g.depth + 1 ≤
      (f.size + g.size + 1) * (max f.depth g.depth + 1) := by
  have hf := Nat.mul_le_mul_left f.size (Nat.le_max_left f.depth g.depth)
  have hg := Nat.mul_le_mul_left g.size (Nat.le_max_right f.depth g.depth)
  rw [Nat.mul_succ, Nat.succ_mul, Nat.add_mul]
  omega

variable [DecidableEq α]

/-- **One step makes a formula at most one level deeper, and at most as many times larger as it is
deep.** -/
theorem within_progress (obs : α → Option Bool) (final : Bool) (f : Formula α) :
    (f.progress obs final).Within (f.depth + 1) (f.size * f.depth) := by
  have hself : ∀ g : Formula α, (Progression.residual g).Within (g.depth + 1) (g.size * g.depth) :=
    fun g ↦ ⟨Nat.le_succ _, Nat.le_mul_of_pos_right _ g.one_le_depth⟩
  -- an operator over time: its own copy takes the room of the level that it adds
  have hoverTime : ∀ (c : Connective) (whole g : Formula α), whole.depth = g.depth + 1 →
      whole.size = g.size + 1 → (g.progress obs final).Within (g.depth + 1) (g.size * g.depth) →
      (Progression.unroll c whole g final (g.progress obs final)).Within (whole.depth + 1)
        (whole.size * whole.depth) := by
    intro c whole g hdepth hsize ih
    refine (ih.unroll c whole g final).mono (by omega) ?_
    have hpos := g.one_le_depth
    rw [hsize, hdepth, Nat.mul_succ, Nat.succ_mul]
    omega
  induction f with
  | const b => trivial
  | var a =>
    rw [progress]
    cases obs a with
    | none => exact hself (var a)
    | some b => trivial
  | neg f ih =>
    refine ih.negate.mono (Nat.le_refl _) ?_
    rw [size, depth, Nat.mul_succ, Nat.succ_mul]
    omega
  | conj f g ihf ihg =>
    exact (ihf.combine .conj ihg).mono (by simp only [depth]; omega) (size_mul_depth_add_le f g)
  | disj f g ihf ihg =>
    exact (ihf.combine .disj ihg).mono (by simp only [depth]; omega) (size_mul_depth_add_le f g)
  | next f _ =>
    have hsize := Nat.le_mul_of_pos_right (f.size + 1) (Nat.succ_pos f.depth)
    exact ⟨by simp only [depth]; omega, (Nat.le_succ _).trans hsize⟩
  | eventually f ih => exact hoverTime .disj (eventually f) f rfl rfl ih
  | always f ih => exact hoverTime .conj (always f) f rfl rfl ih
  | strongUntil f g _ _ =>
    rw [progress_strongUntil, untilOutcome]
    split_ifs
    · trivial
    · trivial
    · exact hself (strongUntil f g)

end Formula

/-! ### Streams of tables -/

namespace Formula

variable {τ ε : Type} [DecidableEq α]

/-- An evaluation that comes to an end gives the progression under some observations. -/
theorem exists_progress_of_evaluate {provider : Except ε τ} {lookup : Lookup α τ ε} {final : Bool}
    {f : Formula α} {p : Progression α} (h : (f.evaluate provider lookup final).1 = .ok p) :
    ∃ obs, p = f.progress obs final := by
  have hrun : (f.evaluateIn provider lookup final).run.run {} =
      (.ok p, (f.evaluate provider lookup final).2) := Prod.ext h rfl
  obtain ⟨-, as, hs, hobs⟩ := (meets_evaluateIn final f).ok .none hrun
  obtain ⟨obs, hagrees⟩ := hs.exists_agrees
  exact ⟨obs, (hobs obs hagrees).2⟩

/-- The residual of an evaluation has the bounds of a step. -/
theorem within_evaluate {provider : Except ε τ} {lookup : Lookup α τ ε} {final : Bool}
    {f : Formula α} {p : Progression α} (h : (f.evaluate provider lookup final).1 = .ok p) :
    p.Within (f.depth + 1) (f.size * f.depth) := by
  obtain ⟨obs, rfl⟩ := exists_progress_of_evaluate h
  exact within_progress obs final f

/-- What is left of a formula after a number of steps, each through a table of its own and each of
them final or not. -/
inductive LeavesAfter (f : Formula α) : Nat → Formula α → Prop
  | start : LeavesAfter f 0 f
  | step {n : Nat} {g r : Formula α} {τ ε : Type} (before : LeavesAfter f n g)
      (provider : Except ε τ) (lookup : Lookup α τ ε) (final : Bool)
      (left : (g.evaluate provider lookup final).1 = .ok (.residual r)) : LeavesAfter f (n + 1) r

theorem LeavesAfter.depth_le {f r : Formula α} {n : Nat} (h : f.LeavesAfter n r) :
    r.depth ≤ f.depth + n := by
  induction h with
  | start => exact Nat.le_refl _
  | step before provider lookup final left ih =>
    have hstep := (within_evaluate left).1
    omega

end Formula

/-! ### Nested calls -/

/-- A recursive function given by its body, with calls nested at most so deep. A call beyond that
gives `overflow`. -/
def nested {σ : Type v} {β : Type w} (body : (σ → β) → σ → β) (overflow : σ → β) : Nat → σ → β
  | 0 => overflow
  | n + 1 => body (nested body overflow n)

namespace Formula

variable {β : Type v}

/-- The formulas that an operator is applied to. -/
def operands : Formula α → List (Formula α)
  | const _ | var _ => []
  | neg f | next f | eventually f | always f => [f]
  | conj f g | disj f g | strongUntil f g => [f, g]

theorem depth_lt_of_mem_operands {f g : Formula α} (h : g ∈ f.operands) : g.depth < f.depth := by
  cases f <;> simp only [operands, List.mem_cons, List.not_mem_nil, or_false] at h <;>
    rcases h with rfl | rfl <;> simp only [depth] <;> omega

/-- The function has the body, and its value at the formula takes calls nested at most `n` deep. -/
structure RecursWithin (n : Nat) (body : (Formula α → β) → Formula α → β) (fn : Formula α → β)
    (f : Formula α) : Prop where
  /-- The function is the recursion with the body. -/
  unfold_eq : ∀ g, fn g = body fn g
  /-- What happens beyond the limit does not matter. -/
  nested_eq : ∀ overflow, nested body overflow n f = fn f

/-- A body that calls the function on operands only. -/
def CallsOperands (body : (Formula α → β) → Formula α → β) : Prop :=
  ∀ (call call' : Formula α → β) (f : Formula α), (∀ g ∈ f.operands, call g = call' g) →
    body call f = body call' f

/-- **Calls on operands are nested at most as deep as the formula.** -/
theorem recursWithin_of_depth_le {body : (Formula α → β) → Formula α → β} {fn : Formula α → β}
    (hfn : ∀ g, fn g = body fn g) (hbody : CallsOperands body) {n : Nat} {f : Formula α}
    (hf : f.depth ≤ n) : RecursWithin n body fn f := by
  refine ⟨hfn, fun overflow ↦ ?_⟩
  induction n generalizing f with
  | zero => exact absurd hf (Nat.not_le_of_gt f.one_le_depth)
  | succ n ih =>
    rw [hfn f]
    refine hbody _ _ f fun g hg ↦ ih ?_
    have hlt := depth_lt_of_mem_operands hg
    omega

/-! ### The recursive functions on formulas -/

/-- The body of `vars`. -/
def varsBody (call : Formula α → List α) : Formula α → List α
  | const _ => []
  | var a => [a]
  | neg f | next f | eventually f | always f => call f
  | conj f g | disj f g | strongUntil f g => call f ++ call g

/-- The body of `mapM`. -/
def mapMBody {m : Type v → Type w} [Monad m] {β : Type v} (g : α → m β)
    (call : Formula α → m (Formula β)) : Formula α → m (Formula β)
  | const b => pure (const b)
  | var a => var <$> g a
  | neg f => neg <$> call f
  | conj f h => do return conj (← call f) (← call h)
  | disj f h => do return disj (← call f) (← call h)
  | next f => next <$> call f
  | eventually f => eventually <$> call f
  | always f => always <$> call f
  | strongUntil f h => do return strongUntil (← call f) (← call h)

/-- The body of `render`. -/
def renderBody [Written α] (call : Formula α → String) : Formula α → String
  | const b => "Const(" ++ boolText b ++ ")"
  | var a => "Var(" ++ Written.written a ++ ")"
  | neg f => "Not(" ++ call f ++ ")"
  | conj f g => "And(" ++ call f ++ ", " ++ call g ++ ")"
  | disj f g => "Or(" ++ call f ++ ", " ++ call g ++ ")"
  | next f => "Next(" ++ call f ++ ")"
  | eventually f => "Eventually(" ++ call f ++ ")"
  | always f => "Always(" ++ call f ++ ")"
  | strongUntil f g => "Until(" ++ call f ++ ", " ++ call g ++ ")"

/-- The body of `evaluateIn`. -/
def evaluateBody {τ ε : Type} [DecidableEq α] (provider : Except ε τ) (lookup : Lookup α τ ε)
    (final : Bool) (call : Formula α → Evaluation α τ ε (Progression α)) :
    Formula α → Evaluation α τ ε (Progression α)
  | const b => pure (.verdict b)
  | var a => do
    match ← Evaluation.value provider lookup a with
    | some b => pure (.verdict b)
    | none => pure (.residual (var a))
  | neg f => do
    return (← call f).negate
  | conj f g => do
    let p ← call f
    if p = .verdict false then pure p else return .combine .conj p (← call g)
  | disj f g => do
    let p ← call f
    if p = .verdict true then pure p else return .combine .disj p (← call g)
  | next f => pure (.residual f)
  | eventually f => do
    return .unroll .disj (eventually f) f final (← call f)
  | always f => do
    return .unroll .conj (always f) f final (← call f)
  | strongUntil f g => do
    match ← call g with
    | .verdict true => pure (.verdict true)
    | .verdict false =>
      if final then pure (.verdict false)
      else match ← call f with
        | .verdict false => pure (.verdict false)
        | _ => pure (.residual (strongUntil f g))
    | .residual _ => pure (.residual (strongUntil f g))

theorem callsOperands_varsBody : CallsOperands (varsBody (α := α)) := by
  intro call call' f h
  cases f <;> simp_all [operands, varsBody]

theorem callsOperands_mapMBody {m : Type v → Type w} [Monad m] {β : Type v} (g : α → m β) :
    CallsOperands (mapMBody g) := by
  intro call call' f h
  cases f <;> simp_all [operands, mapMBody]

theorem callsOperands_renderBody [Written α] : CallsOperands (renderBody (α := α)) := by
  intro call call' f h
  cases f <;> simp_all [operands, renderBody]

theorem callsOperands_evaluateBody {τ ε : Type} [DecidableEq α] (provider : Except ε τ)
    (lookup : Lookup α τ ε) (final : Bool) :
    CallsOperands (evaluateBody provider lookup final) := by
  intro call call' f h
  cases f <;> simp_all [operands, evaluateBody]

/-- The recursive functions on formulas take calls nested at most `n` deep at the formula. -/
structure CallsNestWithin [DecidableEq α] [Written α] (n : Nat) (f : Formula α) : Prop where
  /-- Evaluating it, whatever the table. -/
  evaluateIn : ∀ {τ ε : Type} (provider : Except ε τ) (lookup : Lookup α τ ε) (final : Bool),
    RecursWithin n (evaluateBody provider lookup final) (·.evaluateIn provider lookup final) f
  /-- Writing it. -/
  render : RecursWithin n renderBody render f
  /-- Listing its variables. -/
  vars : RecursWithin n varsBody vars f
  /-- Renaming its variables, in any monad. -/
  mapM : ∀ {β : Type} {m : Type → Type} [Monad m] (g : α → m β),
    RecursWithin n (mapMBody g) (·.mapM g) f

theorem callsNestWithin_of_depth_le [DecidableEq α] [Written α] {n : Nat} {f : Formula α}
    (hf : f.depth ≤ n) : f.CallsNestWithin n where
  evaluateIn provider lookup final :=
    recursWithin_of_depth_le (fun g ↦ by cases g <;> rfl)
      (callsOperands_evaluateBody provider lookup final) hf
  render := recursWithin_of_depth_le (fun g ↦ by cases g <;> rfl) callsOperands_renderBody hf
  vars := recursWithin_of_depth_le (fun g ↦ by cases g <;> rfl) callsOperands_varsBody hf
  mapM g := recursWithin_of_depth_le (fun f ↦ by cases f <;> rfl) (callsOperands_mapMBody g) hf

/-- **Residuals grow slowly.** One step, with a table at hand or on demand, makes a formula at most
one level deeper, and at most as many times larger as it is deep. So after any number of steps it is
at most so many levels deeper, and the recursive functions on formulas nest their calls no deeper
than that. -/
theorem bounded_growth [DecidableEq α] [Written α] (f : Formula α) :
    (∀ (obs : α → Option Bool) (final : Bool) (r : Formula α),
      f.progress obs final = .residual r → r.depth ≤ f.depth + 1 ∧ r.size ≤ f.size * f.depth) ∧
    (∀ {τ ε : Type} (provider : Except ε τ) (lookup : Lookup α τ ε) (final : Bool) (r : Formula α),
      (f.evaluate provider lookup final).1 = .ok (.residual r) →
        r.depth ≤ f.depth + 1 ∧ r.size ≤ f.size * f.depth) ∧
    ∀ (n : Nat) (r : Formula α), f.LeavesAfter n r →
      r.depth ≤ f.depth + n ∧ r.CallsNestWithin (f.depth + n) := by
  refine ⟨fun obs final r hr ↦ ?_, fun provider lookup final r hr ↦ within_evaluate hr,
    fun n r hr ↦ ⟨hr.depth_le, callsNestWithin_of_depth_le hr.depth_le⟩⟩
  have hwithin := within_progress obs final f
  rwa [hr] at hwithin

/-- Two operators over time, both of which leave a copy behind: the residual is as deep as the bound
allows, and twice as many nodes as the formula are not enough for it. -/
theorem bounded_growth_recurring :
    let f : Formula Nat := always (eventually (next (var 0)))
    let r : Formula Nat := conj (disj (var 0) (eventually (next (var 0)))) f
    f.progress (fun _ ↦ none) false = .residual r ∧ f.LeavesAfter 1 r ∧
      r.depth = f.depth + 1 ∧ 2 * f.size < r.size ∧ r.size ≤ f.size * f.depth ∧
      nested renderBody (fun _ ↦ "") (f.depth + 1) r = r.render := by
  intro f r
  have hstep : f.progress (fun _ ↦ none) false = .residual r := by decide
  have hevaluate : (f.evaluate (.ok ()) ⟨fun _ t ↦ (.ok none, t)⟩ false : _ × Session Nat Unit).1 =
      (.ok (.residual r) : Except Empty (Progression Nat)) := by decide
  have hleaves : f.LeavesAfter 1 r := .step .start _ _ _ hevaluate
  obtain ⟨hprogress, -, hafter⟩ := bounded_growth f
  exact ⟨hstep, hleaves, rfl, by decide, (hprogress _ _ r hstep).2,
    (hafter 1 r hleaves).2.render.nested_eq _⟩

end Formula

end TemporalMonitor
