import TemporalMonitor.Oracle

/-!
# The properties of an oracle do not interact

An oracle changes by three operations, in any order: an assume joins it, a guarantee joins it, or
all its properties are judged against one more state. Whatever the sequence, each property is what
iterated progression makes of its own formula over the states that came after it joined, frozen at
its first verdict (`Formula.throughout`). No other property has a part in this, and neither has the
moment at which the others joined; an oracle that holds nothing else reaches the same progression.

The whole state is given in closed form (`properties_performAll`), from what one operation does to
the properties of a role. Everything else is read off from it: places are never given away, verdicts
are never revised, and the step counts the updates.
-/

namespace TemporalMonitor

/-- The parts that a property can play in an oracle. -/
inductive Role where
  | assume
  | guarantee
  deriving DecidableEq, Repr

/-- A state that properties are judged against, and whether it is the final one. -/
abbrev Update := State × Bool

/-- Progresses a formula through updates, each residual through the next one, until there is a
verdict. -/
def Formula.throughout : List Update → Formula Nat → Progression Nat
  | [], f => .residual f
  | (s, final) :: updates, f =>
    match f.progress s.value final with
    | .verdict b => .verdict b
    | .residual r => r.throughout updates

namespace Progression

/-- A property through updates, from what has become of it so far. -/
def throughout (updates : List Update) : Progression Nat → Progression Nat
  | verdict b => verdict b
  | residual f => f.throughout updates

@[simp]
theorem throughout_nil (p : Progression Nat) : p.throughout [] = p := by
  cases p <;> rfl

theorem throughout_cons (s : State) (final : Bool) (updates : List Update) (p : Progression Nat) :
    p.throughout ((s, final) :: updates) = (p.advance s final).throughout updates := by
  cases p with
  | verdict b => rfl
  | residual f =>
    rw [throughout, advance, Formula.throughout]
    cases f.progress s.value final <;> rfl

/-- A verdict is frozen. -/
theorem verdict?_throughout {p : Progression Nat} {b : Bool} (h : p.verdict? = some b)
    (updates : List Update) : (p.throughout updates).verdict? = some b := by
  cases p with
  | verdict c => exact h
  | residual f => cases h

end Progression

namespace Oracle

/-- What can happen to an oracle. -/
inductive Operation where
  /-- A property joins. -/
  | add (role : Role) (f : Formula Nat)
  /-- All properties are judged against a state. -/
  | update (s : State) (final : Bool)
  deriving DecidableEq, Repr

namespace Operation

/-- The operation adds a property of the given role. -/
def adds (role : Role) : Operation → Bool
  | add r _ => r = role
  | update _ _ => false

/-- The operation judges the properties. -/
def isUpdate : Operation → Bool
  | add _ _ => false
  | update _ _ => true

end Operation

/-- The updates among some operations, in order. -/
def updates : List Operation → List Update
  | [] => []
  | .add _ _ :: ops => updates ops
  | .update s final :: ops => (s, final) :: updates ops

/-- The properties of a role. -/
def properties (o : Oracle) : Role → List (Progression Nat)
  | .assume => o.assumes
  | .guarantee => o.guarantees

/-- The verdicts of the properties of a role, as far as they are settled. -/
def verdicts (o : Oracle) : Role → List (Option Bool)
  | .assume => o.assumeVerdicts
  | .guarantee => o.guaranteeVerdicts

/-- The values of the properties of a role at the end of the trace. -/
def finalValues (o : Oracle) : Role → List Bool
  | .assume => o.finalAssumes
  | .guarantee => o.finalGuarantees

/-- The oracle after an operation. -/
def perform (o : Oracle) : Operation → Oracle
  | .add .assume f => o.addAssume f
  | .add .guarantee f => o.addGuarantee f
  | .update s final => o.update s final

/-- The oracle after operations, one after the other. -/
def performAll (o : Oracle) (ops : List Operation) : Oracle := ops.foldl perform o

theorem performAll_append (o : Oracle) (ops later : List Operation) :
    o.performAll (ops ++ later) = (o.performAll ops).performAll later :=
  List.foldl_append

theorem verdicts_eq (o : Oracle) (role : Role) :
    o.verdicts role = (o.properties role).map (·.verdict?) := by
  cases role <;> rfl

theorem finalValues_eq (o : Oracle) (role : Role) :
    o.finalValues role = (o.properties role).map (·.finalValue) := by
  cases role <;> rfl

/-! ### One operation, and all of them -/

/-- A property that joins stands behind the others of its role. -/
theorem properties_add (o : Oracle) (r role : Role) (f : Formula Nat) :
    (o.perform (.add r f)).properties role =
      o.properties role ++ if r = role then [.residual f] else [] := by
  cases r <;> cases role <;> simp [perform, properties, addAssume, addGuarantee]

/-- An update judges each property on its own, in its place. -/
theorem properties_update (o : Oracle) (s : State) (final : Bool) (role : Role) :
    (o.perform (.update s final)).properties role =
      (o.properties role).map (·.advance s final) := by
  cases role <;> rfl

/-- What becomes of the properties of a role that join during some operations: each of them is
judged by the updates behind it. -/
def joined (role : Role) : List Operation → List (Progression Nat)
  | [] => []
  | .add r f :: ops => (if r = role then [f.throughout (updates ops)] else []) ++ joined role ops
  | .update _ _ :: ops => joined role ops

/-- **The properties of a role in closed form.** -/
theorem properties_performAll (o : Oracle) (ops : List Operation) (role : Role) :
    (o.performAll ops).properties role =
      (o.properties role).map (·.throughout (updates ops)) ++ joined role ops := by
  induction ops generalizing o with
  | nil => simp [performAll, updates, joined]
  | cons op ops ih =>
    rw [performAll, List.foldl_cons, ← performAll, ih]
    cases op with
    | add r f =>
      -- the new property is one of the oracle's own from here on
      rw [properties_add, List.map_append, List.append_assoc, updates, joined]
      by_cases hr : r = role
      · rw [if_pos hr, if_pos hr]; rfl
      · rw [if_neg hr, if_neg hr]; rfl
    | update s final =>
      rw [properties_update, List.map_map, updates, joined]
      congr 1
      exact List.map_congr_left fun p _ ↦ (p.throughout_cons s final (updates ops)).symm

theorem length_joined (role : Role) (ops : List Operation) :
    (joined role ops).length = ops.countP (·.adds role) := by
  induction ops with
  | nil => rfl
  | cons op ops ih =>
    cases op with
    | add r f =>
      rw [joined, List.length_append, ih, List.countP_cons, Operation.adds, Nat.add_comm]
      by_cases hr : r = role <;> simp [hr]
    | update s final => rw [joined, ih, List.countP_cons, Operation.adds]; rfl

theorem length_properties_performAll (o : Oracle) (ops : List Operation) (role : Role) :
    ((o.performAll ops).properties role).length =
      (o.properties role).length + ops.countP (·.adds role) := by
  rw [properties_performAll, List.length_append, List.length_map, length_joined]

/-- A property that is there keeps its place and goes through the updates. -/
theorem getElem?_properties_performAll {o : Oracle} {role : Role} {i : Nat} {p : Progression Nat}
    (h : (o.properties role)[i]? = some p) (ops : List Operation) :
    ((o.performAll ops).properties role)[i]? = some (p.throughout (updates ops)) := by
  have hi : i < (o.properties role).length := (List.getElem?_eq_some_iff.1 h).1
  rw [properties_performAll, List.getElem?_append_left (by rwa [List.length_map]),
    List.getElem?_map, h, Option.map_some]

/-- A property that joins takes the next free place, and goes through the updates behind it. -/
theorem getElem?_properties_performAll_add (o : Oracle) (before : List Operation) (role : Role)
    (f : Formula Nat) (behind : List Operation) :
    ((o.performAll (before ++ .add role f :: behind)).properties role)[
        ((o.performAll before).properties role).length]? =
      some (f.throughout (updates behind)) := by
  have hnew : (((o.performAll before).perform (.add role f)).properties role)[
      ((o.performAll before).properties role).length]? = some (.residual f) := by
    rw [properties_add, if_pos rfl, List.getElem?_concat_length]
  rw [performAll_append]
  exact getElem?_properties_performAll hnew behind

theorem getElem?_verdicts_performAll {o : Oracle} {role : Role} {i : Nat} {b : Bool}
    (h : (o.verdicts role)[i]? = some (some b)) (ops : List Operation) :
    ((o.performAll ops).verdicts role)[i]? = some (some b) := by
  rw [verdicts_eq, List.getElem?_map, Option.map_eq_some_iff] at h ⊢
  obtain ⟨p, hp, hverdict⟩ := h
  exact ⟨_, getElem?_properties_performAll hp ops, Progression.verdict?_throughout hverdict _⟩

theorem getElem?_finalValues {o : Oracle} {role : Role} {i : Nat} {b : Bool}
    (h : (o.verdicts role)[i]? = some (some b)) : (o.finalValues role)[i]? = some b := by
  rw [verdicts_eq, List.getElem?_map, Option.map_eq_some_iff] at h
  obtain ⟨p, hp, hverdict⟩ := h
  rw [finalValues_eq, List.getElem?_map, hp, Option.map_some, Progression.finalValue, hverdict,
    Option.getD_some]

theorem step_performAll (o : Oracle) (ops : List Operation) :
    (o.performAll ops).step = o.step + (updates ops).length := by
  induction ops generalizing o with
  | nil => rfl
  | cons op ops ih =>
    rw [performAll, List.foldl_cons, ← performAll, ih]
    cases op with
    | add r f => cases r <;> rfl
    | update s final => exact Nat.succ_add_eq_add_succ o.step _

theorem updates_filter_isUpdate (ops : List Operation) :
    updates (ops.filter Operation.isUpdate) = updates ops := by
  induction ops with
  | nil => rfl
  | cons op ops ih =>
    cases op with
    | add r f => exact ih
    | update s final => exact congrArg ((s, final) :: ·) ih

/-! ### The oracle as a product -/

/-- The properties of an oracle go through operations each on its own. -/
structure ActsAsProduct (o : Oracle) (ops : List Operation) : Prop where
  /-- A property that was there before goes through all updates, in its place. -/
  present : ∀ {role : Role} {i : Nat} {p : Progression Nat},
    (o.properties role)[i]? = some p →
      ((o.performAll ops).properties role)[i]? = some (p.throughout (updates ops))
  /-- A property that joins goes through the updates behind it, in the place it was given. -/
  added : ∀ {before role behind} {f : Formula Nat}, ops = before ++ .add role f :: behind →
    ((o.performAll ops).properties role)[((o.performAll before).properties role).length]? =
      some (f.throughout (updates behind))
  /-- There are no other properties. -/
  length_properties : ∀ role, ((o.performAll ops).properties role).length =
    (o.properties role).length + ops.countP (·.adds role)
  /-- A property that joins fares as it does in an oracle of its own. -/
  alone : ∀ {before role f behind}, ops = before ++ .add role f :: behind →
    ((o.performAll ops).properties role)[((o.performAll before).properties role).length]? =
      ((({} : Oracle).performAll (.add role f :: behind.filter Operation.isUpdate)).properties
        role)[0]?
  /-- A verdict stands, whatever is done later, and is the value at the end. -/
  stable : ∀ {role : Role} {i : Nat} {b : Bool},
    ((o.performAll ops).verdicts role)[i]? = some (some b) → ∀ later,
    ((o.performAll (ops ++ later)).verdicts role)[i]? = some (some b) ∧
      ((o.performAll (ops ++ later)).finalValues role)[i]? = some b
  /-- The step counts the updates. -/
  step_eq : (o.performAll ops).step = o.step + (updates ops).length

/-- **An oracle is the independent product of its properties**, through every sequence of
operations. -/
theorem actsAsProduct (o : Oracle) (ops : List Operation) : o.ActsAsProduct ops where
  present h := getElem?_properties_performAll h ops
  added := by
    rintro before role behind f rfl
    exact getElem?_properties_performAll_add o before role f behind
  length_properties := length_properties_performAll o ops
  alone := by
    rintro before role f behind rfl
    have halone :=
      getElem?_properties_performAll_add {} [] role f (behind.filter Operation.isUpdate)
    have hempty : ((({} : Oracle).performAll []).properties role).length = 0 := by
      cases role <;> rfl
    rw [hempty, updates_filter_isUpdate] at halone
    rw [getElem?_properties_performAll_add]
    exact halone.symm
  stable := by
    intro role i b h later
    have hlater := getElem?_verdicts_performAll h later
    rw [← performAll_append] at hlater
    exact ⟨hlater, getElem?_finalValues hlater⟩
  step_eq := step_performAll o ops

/-- A guarantee that joins between two updates, beside an assume that is settled by then. -/
example :
    let o : Oracle := .ofFormulas [.var 0] []
    let ops : List Operation := [.update [some true] false, .add .guarantee (.always (.var 0)),
      .update [some false] false, .update [some true] true]
    (o.performAll ops).properties .guarantee = [.verdict false] ∧
      (o.performAll ops).verdicts .assume = [some true] ∧ (o.performAll ops).step = 3 := by
  decide

end Oracle

end TemporalMonitor
