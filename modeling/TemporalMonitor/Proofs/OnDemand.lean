import TemporalMonitor.Progression.Binding
import TemporalMonitor.Proofs.Session

/-!
# Evaluation on demand refines progression

`Formula.evaluate` asks a table that may change with every answer, keeps the answers, skips what
cannot matter, and stops at the first failure. `Formula.progress` reads a table that is given from
the start. This module ties the two together (`evaluate_refines_progress`).

What an evaluation meets is said without a session and without answers kept: `Formula.met` lists the
variables in the order of evaluation, one entry per visit, under given observations. The variables
that are passed to the table are the first visits among them. Each operator composes the contracts
of its operands (`meets_evaluateIn`), and the contract of the whole formula, from an untouched
session on, amounts to the refinement (`Refines`).
-/

namespace TemporalMonitor

variable {α τ ε : Type} [DecidableEq α]

namespace Formula

open Evaluation

/-- The variables that are met when a formula is evaluated under the given observations, one entry
per visit. Operands of a connective are visited from left to right, the right one unless the left
one settles the connective. Nothing is visited below `next`. The right operand of a `strongUntil` is
visited first, the left one only if the right one is false before the final step. -/
def met (obs : α → Option Bool) (final : Bool) : Formula α → List α
  | const _ => []
  | var a => [a]
  | neg f | eventually f | always f => f.met obs final
  | next _ => []
  | conj f g =>
    f.met obs final ++ if f.progress obs final = .verdict false then [] else g.met obs final
  | disj f g =>
    f.met obs final ++ if f.progress obs final = .verdict true then [] else g.met obs final
  | strongUntil f g =>
    g.met obs final ++
      if g.progress obs final = .verdict false ∧ final = false then f.met obs final else []

variable {provider : Except ε τ} {lookup : Lookup α τ ε}

/-- The operands of a connective, from left to right: the right one is skipped when the left one
settles the connective. -/
theorem meets_combine (c : Connective) {m m' : Evaluation α τ ε (Progression α)}
    {vars vars' : (α → Option Bool) → List α} {val val' : (α → Option Bool) → Progression α}
    (hm : Meets provider lookup m vars val) (hm' : Meets provider lookup m' vars' val') :
    Meets provider lookup
      (do
        let p ← m
        if p = .verdict (!c.unit) then pure p else return .combine c p (← m'))
      (fun obs ↦ vars obs ++ if val obs = .verdict (!c.unit) then [] else vars' obs)
      (fun obs ↦ .combine c (val obs) (val' obs)) := by
  have hrest : ∀ p : Progression α, Meets provider lookup
      (if p = .verdict (!c.unit) then pure p else return .combine c p (← m'))
      (fun obs ↦ if p = .verdict (!c.unit) then [] else vars' obs)
      (fun obs ↦ .combine c p (val' obs)) := by
    intro p
    split_ifs with hp
    · -- the value that is not the unit settles the connective, whatever is on the right
      have hsettled : ∀ q : Progression α, Progression.combine c p q = p := by
        intro q
        rw [hp]
        cases c <;> rfl
      simp only [hsettled]
      exact Meets.pure p
    · exact hm'.map (Progression.combine c p)
  exact hm.bind hrest

/-- The progression of a `strongUntil` from those of its operands. -/
def untilOutcome (whole : Formula α) (final : Bool) (right left : Progression α) : Progression α :=
  if right = .verdict true then .verdict true
  else if right = .verdict false ∧ (final = true ∨ left = .verdict false) then .verdict false
  else .residual whole

theorem progress_strongUntil (obs : α → Option Bool) (final : Bool) (f g : Formula α) :
    (strongUntil f g).progress obs final =
      untilOutcome (strongUntil f g) final (g.progress obs final) (f.progress obs final) := by
  rw [progress, untilOutcome]
  rcases g.progress obs final with (_ | _) | r <;> cases final <;>
    rcases f.progress obs false with (_ | _) | r' <;> simp

/-- The right operand of a `strongUntil`, and then the left one if it decides. -/
theorem meets_strongUntil {final : Bool} {f g : Formula α}
    (hf : Meets provider lookup (f.evaluateIn provider lookup final) (fun obs ↦ f.met obs final)
      (fun obs ↦ f.progress obs final))
    (hg : Meets provider lookup (g.evaluateIn provider lookup final) (fun obs ↦ g.met obs final)
      (fun obs ↦ g.progress obs final)) :
    Meets provider lookup ((strongUntil f g).evaluateIn provider lookup final)
      (fun obs ↦ (strongUntil f g).met obs final)
      (fun obs ↦ (strongUntil f g).progress obs final) := by
  simp only [progress_strongUntil]
  refine Meets.bind
    (w := fun q obs ↦ if q = .verdict false ∧ final = false then f.met obs final else [])
    (y := fun q obs ↦ untilOutcome (strongUntil f g) final q (f.progress obs final)) hg fun q ↦ ?_
  rcases q with (_ | _) | r
  · -- the right operand is false, so the final step decides, or else the left operand
    cases final with
    | true => exact (Meets.pure _).congr (fun obs ↦ by simp) fun obs ↦ by simp [untilOutcome]
    | false =>
      simp only [and_self, if_true, Bool.false_eq_true, if_false]
      refine Meets.congr (Meets.bind (w := fun _ _ ↦ [])
        (y := fun p _ ↦ untilOutcome (strongUntil f g) false (.verdict false) p) hf fun p ↦ ?_)
        (fun obs ↦ List.append_nil _) fun obs ↦ rfl
      rcases p with (_ | _) | r <;> exact Meets.pure _
  · exact (Meets.pure _).congr (fun obs ↦ by simp) fun obs ↦ by simp [untilOutcome]
  · exact (Meets.pure _).congr (fun obs ↦ by simp) fun obs ↦ by simp [untilOutcome]

/-- **Evaluation meets what is met under the observations, and returns the progression.** -/
theorem meets_evaluateIn (final : Bool) (f : Formula α) :
    Meets provider lookup (f.evaluateIn provider lookup final) (fun obs ↦ f.met obs final)
      (fun obs ↦ f.progress obs final) := by
  induction f with
  | const b => exact Meets.pure _
  | var a =>
    refine Meets.congr (Meets.bind (w := fun _ _ ↦ [])
      (y := fun v _ ↦ v.elim (.residual (var a)) .verdict) (meets_value a) fun v ↦ ?_)
      (fun obs ↦ rfl) fun obs ↦ ?_
    · cases v <;> exact Meets.pure _
    · rw [progress]
      cases obs a <;> rfl
  | neg f ih => exact ih.map Progression.negate
  | conj f g ihf ihg => exact meets_combine .conj ihf ihg
  | disj f g ihf ihg => exact meets_combine .disj ihf ihg
  | next f _ => exact Meets.pure _
  | eventually f ih => exact ih.map _
  | always f ih => exact ih.map _
  | strongUntil f g ihf ihg => exact meets_strongUntil ihf ihg

/-! ### The refinement -/

/-- A result and a session that refine the progression of the formula. Observations come in as those
that agree with the answers received. -/
structure Refines (provider : Except ε τ) (lookup : Lookup α τ ε) (final : Bool) (f : Formula α)
    (result : Except ε (Progression α)) (session : Session α τ) : Prop where
  /-- The answers received are those of some observations. -/
  exists_agrees : ∃ obs, session.Agrees obs
  /-- Variables are passed to the table at their first visit, up to the one that failed. -/
  asked_prefix : ∀ obs, session.Agrees obs → session.asked <+: (f.met obs final).eraseDups
  /-- If nothing failed, these are all the first visits. -/
  asked_eq : ∀ obs, session.Agrees obs →
    ∀ p, result = .ok p → session.asked = (f.met obs final).eraseDups
  /-- No variable is passed to the table twice. -/
  nodup_asked : session.asked.Nodup
  /-- The table is requested once if a variable is met, and not at all otherwise. -/
  requests_eq : ∀ obs, session.Agrees obs →
    session.requests = if f.met obs final = [] then 0 else 1
  /-- What is returned is the progression. -/
  progress_eq : ∀ obs, session.Agrees obs → ∀ p, result = .ok p → p = f.progress obs final
  /-- A failure is the one of the provider that was called, or the last reply of the table. -/
  error_iff : ∀ e, result = .error e ↔ (session.requests = 1 ∧ provider = .error e) ∨
    ∃ t a, provider = .ok t ∧ (lookup.replies session.asked t).getLast? = some (a, .error e)
  /-- After a failure of the provider nothing is asked. -/
  asked_of_error : ∀ e, provider = .error e → session.asked = []
  /-- All replies are answers that were kept, except for a failure at the end. -/
  replies_eq : ∀ t, provider = .ok t → ∃ failure, failure.length ≤ 1 ∧
    (∀ r ∈ failure, ∃ a e, r = (a, .error e)) ∧
    lookup.replies session.asked t = session.answers.reverse.map (Prod.map id .ok) ++ failure

theorem refines_of_met {final : Bool} {f : Formula α} {p : Progression α} {as : List α}
    {s : Session α τ} (hs : Session.Met provider lookup as s)
    (hobs : ∀ obs, s.Agrees obs → as = f.met obs final ∧ p = f.progress obs final) :
    Refines provider lookup final f (.ok p) s where
  exists_agrees := hs.exists_agrees
  asked_prefix obs h := by
    rw [hs.asked_eq, ← (hobs obs h).1]
  asked_eq obs h _ _ := by
    rw [hs.asked_eq, ← (hobs obs h).1]
  nodup_asked := by
    rw [hs.asked_eq]
    exact nodup_eraseDups as
  requests_eq obs h := by
    rw [hs.requests_eq, ← (hobs obs h).1]
  progress_eq obs h q hq := by
    rw [← Except.ok.inj hq]
    exact (hobs obs h).2
  error_iff e := by
    refine iff_of_false (fun h ↦ by cases h) ?_
    rintro (⟨hone, he⟩ | ⟨t, a, ht, hlast⟩)
    · obtain ⟨-, rfl⟩ := hs.eq_of_error he
      cases hone
    · -- every reply was an answer
      rw [hs.asked_eq, hs.replies_eq ht] at hlast
      obtain ⟨r, -, hr⟩ := List.mem_map.1 (List.mem_of_getLast? hlast)
      cases hr
  asked_of_error e he := by
    obtain ⟨-, rfl⟩ := hs.eq_of_error he
    rfl
  replies_eq t ht := by
    refine ⟨[], Nat.zero_le 1, fun r hr ↦ absurd hr List.not_mem_nil, ?_⟩
    rw [List.append_nil, hs.asked_eq, hs.replies_eq ht]

theorem refines_of_failedAt {final : Bool} {f : Formula α} {e : ε} {as : List α} {a : α}
    {s : Session α τ} (hs : Session.FailedAt provider lookup as a e s)
    (hobs : ∀ obs, s.Agrees obs → as ++ [a] <+: f.met obs final) :
    Refines provider lookup final f (.error e) s := by
  -- something is met, namely the variable that failed
  have hmet : ∀ obs, s.Agrees obs → f.met obs final ≠ [] := by
    intro obs h hnil
    have hprefix := hobs obs h
    rw [hnil, List.prefix_nil] at hprefix
    exact List.concat_ne_nil a as hprefix
  cases hs with
  | provider failed =>
    exact {
      exists_agrees := ⟨fun _ ↦ none, fun a v h ↦ absurd h List.not_mem_nil⟩
      asked_prefix := fun obs h ↦ List.nil_prefix
      asked_eq := fun obs h p hp ↦ by cases hp
      nodup_asked := List.nodup_nil
      requests_eq := fun obs h ↦ (if_neg (hmet obs h)).symm
      progress_eq := fun obs h p hp ↦ by cases hp
      error_iff := fun e' ↦ by simp [failed]
      asked_of_error := fun _ _ ↦ rfl
      replies_eq := fun t ht ↦ by cases failed.symm.trans ht }
  | reply fresh provided replied failed =>
    rename_i t answers
    have hasked : as.eraseDups ++ [a] = (as ++ [a]).eraseDups := by
      rw [eraseDups_concat, if_neg fresh]
    have hreplies : lookup.replies (as.eraseDups ++ [a]) t =
        answers.reverse.map (Prod.map id .ok) ++ [(a, .error e)] := by
      rw [lookup.replies_concat, replied, failed]
    exact {
      exists_agrees := Session.exists_agrees_of_replies replied
      asked_prefix := fun obs h ↦ by
        rw [hasked]
        exact eraseDups_isPrefix (hobs obs h)
      asked_eq := fun obs h p hp ↦ by cases hp
      nodup_asked := by
        rw [hasked]
        exact nodup_eraseDups _
      requests_eq := fun obs h ↦ (if_neg (hmet obs h)).symm
      progress_eq := fun obs h p hp ↦ by cases hp
      error_iff := fun e' ↦ by simp [provided, hreplies, eq_comm]
      asked_of_error := fun e' he ↦ by cases provided.symm.trans he
      replies_eq := fun t' ht ↦ by
        obtain rfl := Except.ok.inj (provided.symm.trans ht)
        refine ⟨[(a, .error e)], Nat.le_refl 1, fun r hr ↦ ?_, hreplies⟩
        exact ⟨a, e, List.mem_singleton.1 hr⟩ }

/-- **Evaluation on demand refines progression**, whatever the table answers and wherever it fails:
it asks for the first visits, and gives the progression under all observations that agree with the
answers. -/
theorem evaluate_refines_progress (provider : Except ε τ) (lookup : Lookup α τ ε) (final : Bool)
    (f : Formula α) :
    Refines provider lookup final f (f.evaluate provider lookup final).1
      (f.evaluate provider lookup final).2 := by
  have hmeets : Meets provider lookup (f.evaluateIn provider lookup final) _ _ :=
    meets_evaluateIn final f
  rcases hrun : f.evaluate provider lookup final with ⟨e | p, s⟩
  · obtain ⟨-, as, a, hs, hobs⟩ := hmeets.error .none hrun
    exact refines_of_failedAt hs hobs
  · obtain ⟨-, as, hs, hobs⟩ := hmeets.ok .none hrun
    exact refines_of_met hs hobs

/-- A probe that would change its answer is read once, the conjunction is settled without its right
operand, and the left operand of the `strongUntil` is asked for after the right one. -/
theorem evaluate_refines_progress_probe :
    let f : Formula String :=
      .disj (.conj (.var "a") (.var "b")) (.strongUntil (.var "c") (.var "a"))
    let table : Bindings String :=
      [("a", .probe [.ok false, .ok true]), ("b", .value true), ("c", .probe [.ok true])]
    let run := f.evaluate (.ok table) (Bindings.lookups "no reading") false
    let obs : String → Option Bool :=
      fun a ↦ if a = "a" then some false else if a = "c" then some true else none
    run.2.Agrees obs ∧ run.1 = .ok (.residual (.strongUntil (.var "c") (.var "a"))) ∧
      f.met obs false = ["a", "a", "c"] ∧ run.2.asked = ["a", "c"] ∧
      f.progress obs false = .residual (.strongUntil (.var "c") (.var "a")) := by
  intro f table run obs
  have hagrees : run.2.Agrees obs := by
    intro a v hav
    have hanswers : run.2.answers = [("c", some true), ("a", some false)] := by decide
    rw [hanswers] at hav
    obtain ⟨rfl, rfl⟩ | ⟨rfl, rfl⟩ : (a = "c" ∧ v = some true) ∨ (a = "a" ∧ v = some false) := by
      simpa using hav
    · decide
    · decide
  have hrun : run.1 = .ok (.residual (.strongUntil (.var "c") (.var "a"))) := by decide
  have hmet : f.met obs false = ["a", "a", "c"] := by decide
  have h := evaluate_refines_progress (.ok table) (Bindings.lookups "no reading") false f
  refine ⟨hagrees, hrun, hmet, ?_, (h.progress_eq obs hagrees _ hrun).symm⟩
  rw [h.asked_eq obs hagrees _ hrun, hmet]
  decide

end Formula

end TemporalMonitor
