import TemporalMonitor.Proofs.Independence
import TemporalMonitor.Proofs.Lookahead
import TemporalMonitor.Proofs.OnDemand
import TemporalMonitor.Proofs.Residual

/-!
# When a step gives a verdict

Whether a step settles a formula depends on the verdicts of its operands alone, not on what is left
of those that are open. Each operation of a step says exactly when it gives which verdict
(`negate_eq_verdict_iff`, `combine_eq_verdict_iff`, `unroll_eq_verdict_iff`,
`untilOutcome_eq_verdict_iff`), and all these conditions are monotone: verdicts of operands are
asked for, never their absence. Two things follow.

* **A verdict stands** if more is observed at the step, or if the step is taken for the final one
  (`Formula.verdict_of_extended`). This is about one step: through a run, a value that is observed
  earlier replaces the one that was waited for.
* **The final state leaves nothing open** in a property without `next`, provided it observes the
  variables of the property (`Oracle.settled_by_final_state`). The property has become a residual by
  then, which inherits both from it; whatever it is, the final step reads it like a formula without
  temporal operators (`Formula.truthAtEnd`).
-/

namespace TemporalMonitor

variable {α : Type}

/-! ### The verdicts of a step -/

theorem Progression.negate_eq_verdict_iff {p : Progression α} {b : Bool} :
    p.negate = verdict b ↔ p = verdict !b := by
  cases p with
  | verdict a => cases a <;> cases b <;> simp [negate]
  | residual f => simp [negate]

variable [DecidableEq α]

/-- The unit comes out if both operands give it, the other truth value if one of them does. -/
theorem Progression.combine_eq_verdict_iff {c : Connective} {p q : Progression α} {b : Bool} :
    combine c p q = verdict b ↔
      if b = c.unit then p = verdict b ∧ q = verdict b else p = verdict b ∨ q = verdict b := by
  rcases p with (_ | _) | l <;> rcases q with (_ | _) | r <;> cases c <;> cases b <;>
    simp [combine, Connective.unit]

/-- The verdict of the operand settles the operator, but the unit does so at the final step only. -/
theorem Progression.unroll_eq_verdict_iff {c : Connective} {whole sub : Formula α} {final : Bool}
    {p : Progression α} {b : Bool} :
    unroll c whole sub final p = verdict b ↔ p = verdict b ∧ (b = c.unit → final = true) := by
  rcases p with (_ | _) | r <;> cases c <;> cases final <;> cases b <;>
    simp [unroll, Connective.unit]

/-- The verdict of the right operand settles a `strongUntil`; but if it is false, then at the final
step only, or together with the left operand. -/
theorem Formula.untilOutcome_eq_verdict_iff {whole : Formula α} {final : Bool}
    {right left : Progression α} {b : Bool} :
    untilOutcome whole final right left = .verdict b ↔
      right = .verdict b ∧ (b = false → final = true ∨ left = .verdict false) := by
  rw [untilOutcome]
  split_ifs with htrue hfalse
  · rw [htrue]
    cases b <;> simp
  · rw [hfalse.1]
    cases b <;> simp [hfalse.2]
  · refine iff_of_false (fun h ↦ by cases h) ?_
    rintro ⟨hright, hleft⟩
    cases b with
    | true => exact htrue hright
    | false => exact hfalse ⟨hright, hleft rfl⟩

/-! ### More observations -/

/-- **More information never flips a verdict.** What a step settles stays settled in the same way
when the step observes more, or when it is the final one. -/
theorem Formula.verdict_of_extended {obs obs' : α → Option Bool}
    (hobs : ∀ a b, obs a = some b → obs' a = some b) {final final' : Bool}
    (hfinal : final = true → final' = true) {f : Formula α} {b : Bool}
    (h : f.progress obs final = .verdict b) : f.progress obs' final' = .verdict b := by
  induction f generalizing b with
  | const c => exact h
  | var a =>
    rw [progress] at h ⊢
    cases ha : obs a with
    | none =>
      rw [ha] at h
      cases h
    | some c =>
      rw [ha] at h
      rwa [hobs a c ha]
  | neg f ih =>
    rw [progress, Progression.negate_eq_verdict_iff] at h ⊢
    exact ih h
  | conj f g ihf ihg | disj f g ihf ihg =>
    rw [progress, Progression.combine_eq_verdict_iff] at h ⊢
    split_ifs at h ⊢
    · exact ⟨ihf h.1, ihg h.2⟩
    · exact h.imp ihf ihg
  | next f _ => cases h
  | eventually f ih | always f ih =>
    rw [progress, Progression.unroll_eq_verdict_iff] at h ⊢
    exact ⟨ih h.1, fun hb ↦ hfinal (h.2 hb)⟩
  | strongUntil f g ihf ihg =>
    rw [progress_strongUntil, untilOutcome_eq_verdict_iff] at h ⊢
    exact ⟨ihg h.1, fun hb ↦ (h.2 hb).imp hfinal ihf⟩

/-- A `strongUntil` that its left operand settles before the final step, and that the final step
settles without it. -/
theorem Formula.verdict_of_extended_until :
    let f : Formula Nat := .disj (.next (.var 2)) (.neg (.strongUntil (.always (.var 0)) (.var 1)))
    let obs : Nat → Option Bool := State.value [some false, some false]
    let obs' : Nat → Option Bool := State.value [some false, some false, some true]
    (∀ a b, obs a = some b → obs' a = some b) ∧ f.progress obs false = .verdict true ∧
      f.progress obs' true = .verdict true := by
  intro f obs obs'
  have hobs : ∀ a b, obs a = some b → obs' a = some b := by
    intro a b h
    rcases a with _ | _ | a
    · exact h
    · exact h
    · cases h
  have hverdict : f.progress obs false = .verdict true := by decide
  exact ⟨hobs, hverdict, verdict_of_extended hobs (fun _ ↦ rfl) hverdict⟩

/-- Through a run a verdict may change: here the value of the second state was waited for. -/
example : (.var 0 : Formula Nat).run true [State.value [none], State.value [some true]] =
      .verdict true ∧
    (.var 0 : Formula Nat).run true [State.value [some false], State.value [some true]] =
      .verdict false := by
  decide

/-! ### The final step -/

namespace Formula

omit [DecidableEq α]

/-- No `next` occurs in the formula. -/
def isNextFree : Formula α → Bool
  | const _ | var _ => true
  | neg f | eventually f | always f => f.isNextFree
  | conj f g | disj f g | strongUntil f g => f.isNextFree && g.isNextFree
  | next _ => false

/-- The truth value at the last state of a trace: a formula that is asked for at some step, or at
every step, is asked for now. There is no step behind it for a `next` to be true at. -/
def truthAtEnd (v : α → Bool) : Formula α → Bool
  | const b => b
  | var a => v a
  | neg f => !f.truthAtEnd v
  | conj f g => f.truthAtEnd v && g.truthAtEnd v
  | disj f g => f.truthAtEnd v || g.truthAtEnd v
  | next _ => false
  | eventually f | always f => f.truthAtEnd v
  | strongUntil _ g => g.truthAtEnd v

/-- Residuals gain neither a `next` nor a variable. -/
theorem hereditary_isNextFree (vs : List α) :
    Hereditary fun f : Formula α ↦ f.isNextFree = true ∧ f.vars ⊆ vs where
  const _ := ⟨rfl, List.nil_subset vs⟩
  neg := Iff.rfl
  conj := by simp [isNextFree, vars, and_and_and_comm]
  disj := by simp [isNextFree, vars, and_and_and_comm]
  next h := absurd h.1 Bool.false_ne_true
  eventually := id
  always := id

variable [DecidableEq α]

/-- **The final step settles a formula without `next`** whose variables it observes. -/
theorem progress_of_isNextFree {f : Formula α} (hf : f.isNextFree = true)
    {obs : α → Option Bool} {v : α → Bool} (hobs : ∀ a ∈ f.vars, obs a = some (v a)) :
    f.progress obs true = .verdict (f.truthAtEnd v) := by
  induction f with
  | const b => rfl
  | var a => rw [progress, hobs a (List.mem_singleton_self a)]; rfl
  | neg f ih => rw [progress, ih hf hobs]; rfl
  | conj f g ihf ihg | disj f g ihf ihg =>
    obtain ⟨hf, hg⟩ := Bool.and_eq_true_iff.1 hf
    obtain ⟨hobsf, hobsg⟩ := List.forall_mem_append.1 hobs
    rw [progress, ihf hf hobsf, ihg hg hobsg, truthAtEnd]
    cases f.truthAtEnd v <;> rfl
  | next f _ => cases hf
  | eventually f ih | always f ih =>
    rw [progress, Progression.unroll_eq_verdict_iff]
    exact ⟨ih hf hobs, fun _ ↦ rfl⟩
  | strongUntil f g _ ihg =>
    rw [progress_strongUntil, untilOutcome_eq_verdict_iff]
    exact ⟨ihg (Bool.and_eq_true_iff.1 hf).2 (List.forall_mem_append.1 hobs).2,
      fun _ ↦ Or.inl rfl⟩

end Formula

/-! ### Properties at the end of a trace -/

theorem Hereditary.throughout {P : Formula Nat → Prop} (hP : Hereditary P)
    (updates : List Update) {f : Formula Nat} (hf : P f) :
    P (f.throughout updates).toFormula := by
  induction updates generalizing f with
  | nil => exact hf
  | cons u updates ih =>
    have hleft := hP.progress u.1.value u.2 hf
    rw [Formula.throughout]
    cases hp : f.progress u.1.value u.2 with
    | verdict b => exact hP.const b
    | residual r =>
      rw [hp] at hleft
      exact ih hleft

namespace Oracle

theorem properties_fed (o : Oracle) (states : List State) (role : Role) :
    (o.fed states).properties role =
      (o.properties role).map (·.throughout (states.map (·, false))) := by
  induction states generalizing o with
  | nil => simp
  | cons s states ih =>
    rw [fed_cons, ih]
    have hupdate := properties_update o s false role
    rw [perform] at hupdate
    rw [hupdate, List.map_map, List.map_cons]
    exact List.map_congr_left fun p _ ↦ (p.throughout_cons s false _).symm

/-- What is left of a property without `next` has a verdict after a final state that observes the
variables of the property. -/
theorem exists_advance_eq_verdict {f : Formula Nat} (hf : f.isNextFree = true)
    (updates : List Update) {last : State} (hlast : ∀ i ∈ f.vars, last.value i ≠ none) :
    ∃ b, (f.throughout updates).advance last true = .verdict b := by
  have hleft := (Formula.hereditary_isNextFree f.vars).throughout updates ⟨hf, List.Subset.refl _⟩
  cases hp : f.throughout updates with
  | verdict b => exact ⟨b, rfl⟩
  | residual r =>
    rw [hp] at hleft
    have hobs : ∀ i ∈ r.vars, last.value i = some ((last.value i).getD false) := by
      intro i hi
      obtain ⟨b, hb⟩ := Option.ne_none_iff_exists'.1 (hlast i (hleft.2 hi))
      rw [hb, Option.getD_some]
    exact ⟨_, Formula.progress_of_isNextFree hleft.1 hobs⟩

/-- **The final state leaves nothing open in a property without `next`.** Wherever the property
stands in an oracle, and whatever the states before observed, it has a verdict after a final state
that observes its variables, and this verdict is its value at the end of the trace. -/
theorem settled_by_final_state {o : Oracle} {role : Role} {i : Nat} {f : Formula Nat}
    (hopen : (o.properties role)[i]? = some (.residual f)) (hf : f.isNextFree = true)
    (states : List State) {last : State} (hlast : ∀ v ∈ f.vars, last.value v ≠ none) :
    ∃ b, (((o.fed states).update last true).verdicts role)[i]? = some (some b) ∧
      (((o.fed states).update last true).finalValues role)[i]? = some b := by
  obtain ⟨b, hb⟩ := exists_advance_eq_verdict hf (states.map (·, false)) hlast
  have hproperty : (((o.fed states).update last true).properties role)[i]? = some (.verdict b) := by
    have hupdate := properties_update (o.fed states) last true role
    rw [perform] at hupdate
    rw [hupdate, properties_fed, List.getElem?_map, List.getElem?_map, hopen]
    exact congrArg some hb
  have hverdict : (((o.fed states).update last true).verdicts role)[i]? = some (some b) := by
    rw [verdicts_eq, List.getElem?_map, hproperty]
    rfl
  exact ⟨b, hverdict, getElem?_finalValues hverdict⟩

/-- A response that is still owed after a state that does not observe it. -/
theorem settled_by_final_state_response :
    let f : Formula Nat := .always (.disj (.neg (.var 0)) (.eventually (.var 1)))
    let o : Oracle := .ofFormulas [.var 0] [.next (.var 0), f]
    let last : State := [some false, some true]
    (o.properties .guarantee)[1]? = some (.residual f) ∧ f.isNextFree = true ∧
      (∀ v ∈ f.vars, last.value v ≠ none) ∧
      ((o.fed [[some true, none]]).properties .guarantee)[1]? =
        some (.residual (.conj (.eventually (.var 1)) f)) ∧
      ∃ b, (((o.fed [[some true, none]]).update last true).verdicts .guarantee)[1]? =
          some (some b) ∧
        (((o.fed [[some true, none]]).update last true).finalValues .guarantee)[1]? = some b := by
  intro f o last
  have hopen : (o.properties .guarantee)[1]? = some (.residual f) := rfl
  have hlast : ∀ v ∈ f.vars, last.value v ≠ none := by decide
  exact ⟨hopen, rfl, hlast, by decide, settled_by_final_state hopen rfl [[some true, none]] hlast⟩

/-- With a `next` the final state may leave a property open, and then it counts as violated. -/
example :
    let o := (Oracle.ofFormulas [] [.neg (.next (.var 0))]).update [some false] true
    o.guaranteeVerdicts = [none] ∧ o.finalGuarantees = [false] := by
  decide

end Oracle

end TemporalMonitor
