import Mathlib.Data.List.Perm.Basic
import TemporalMonitor.Statistics

/-!
# Counts in closed form

The statistics that effects amount to, one applied after the other, say of each kind of effect how
often it occurred (`Statistics.ofEffects`, `foldl_apply_ofEffects`). So the order of the effects
does not matter (`ofEffects_perm`), and the statistics tell exactly about the outcomes that were
recorded, as long as no count wraps around (`Statistics.Tally`, `tally_ofEffects`).
-/

namespace TemporalMonitor

namespace Effect

/-- The effect adds to the violations of the guarantee at position `j`. -/
def violates (j : Nat) : Effect → Bool
  | violations gs => gs[j]? == some false
  | _ => false

/-- The number of guarantees that the effect has a count for. -/
def width : Effect → Nat
  | violations gs => gs.length
  | _ => 0

/-- The effect counts a run, whatever its outcome. -/
def countsRun : Effect → Bool
  | violations _ => false
  | _ => true

end Effect

/-- Counts are added position by position, the shorter list being filled up with zeros. -/
theorem getElem?_addViolations (gs : List Bool) (counts : List UInt32) (j : Nat) :
    (addViolations gs counts)[j]? =
      if j < max counts.length gs.length then
        some (counts[j]?.getD 0 + if gs[j]? = some false then 1 else 0)
      else none := by
  fun_induction addViolations gs counts generalizing j with
  | case1 counts =>
    rcases Nat.lt_or_ge j counts.length with h | h
    · simp [h]
    · simp [Nat.not_lt.2 h]
  | case2 g gs ih => cases j <;> cases g <;> simp_all
  | case3 g gs n counts ih => cases j <;> cases g <;> simp_all

namespace Statistics

/-- The number of guarantees that have a count after some effects. -/
def width : List Effect → Nat
  | [] => 0
  | e :: effects => max e.width (width effects)

theorem width_append (effects effects' : List Effect) :
    width (effects ++ effects') = max (width effects) (width effects') := by
  induction effects with
  | nil => exact (Nat.zero_max _).symm
  | cons e effects ih => rw [List.cons_append, width, ih, width, Nat.max_assoc]

theorem width_concat (effects : List Effect) (e : Effect) :
    width (effects ++ [e]) = max (width effects) e.width := by
  rw [width_append, width, width, Nat.max_zero]

theorem width_le_of_mem {effects : List Effect} {e : Effect} (h : e ∈ effects) :
    e.width ≤ width effects := by
  induction effects with
  | nil => cases h
  | cons d effects ih =>
    rcases List.mem_cons.1 h with rfl | h
    · exact Nat.le_max_left _ _
    · exact Nat.le_trans (ih h) (Nat.le_max_right _ _)

theorem width_perm {effects effects' : List Effect} (h : effects.Perm effects') :
    width effects = width effects' := by
  induction h with
  | nil => rfl
  | cons e _ ih => rw [width, width, ih]
  | swap d e effects => exact Nat.max_left_comm _ _ _
  | trans _ _ ih ih' => exact ih.trans ih'

/-- A guarantee beyond all the counts was not violated. -/
theorem countP_violates_eq_zero {effects : List Effect} {j : Nat} (h : width effects ≤ j) :
    effects.countP (·.violates j) = 0 := by
  refine List.countP_eq_zero.2 fun e he hviolates ↦ ?_
  cases e with
  | violations gs =>
    have hle : gs.length ≤ j := Nat.le_trans (width_le_of_mem he) h
    simp [Effect.violates, List.getElem?_eq_none hle] at hviolates
  | success | failure | incomplete => cases hviolates

/-- The statistics of a batch in which the given effects have happened. -/
def ofEffects (running : Bool) (effects : List Effect) : Statistics where
  running := running
  successes := .ofNat (effects.count .success)
  failures := .ofNat (effects.count .failure)
  incomplete := .ofNat (effects.count .incomplete)
  violations := (List.range (width effects)).map fun j ↦ .ofNat (effects.countP (·.violates j))

/-- The order of the effects does not matter. -/
theorem ofEffects_perm (running : Bool) {effects effects' : List Effect}
    (h : effects.Perm effects') : ofEffects running effects = ofEffects running effects' := by
  simp only [ofEffects, h.count_eq, h.countP_eq, width_perm h]

theorem getD_violations_ofEffects (running : Bool) (effects : List Effect) (j : Nat) :
    (ofEffects running effects).violations[j]?.getD 0 =
      .ofNat (effects.countP (·.violates j)) := by
  rcases Nat.lt_or_ge j (width effects) with h | h
  · simp [ofEffects, h]
  · simp [ofEffects, Nat.not_lt.2 h, countP_violates_eq_zero h]

theorem addViolations_ofEffects (running : Bool) (effects : List Effect) (gs : List Bool) :
    addViolations gs (ofEffects running effects).violations =
      (ofEffects running (effects ++ [.violations gs])).violations := by
  refine List.ext_getElem? fun j ↦ ?_
  have hcount : (effects ++ [Effect.violations gs]).countP (·.violates j) =
      effects.countP (·.violates j) + if gs[j]? = some false then 1 else 0 := by
    simp [Effect.violates]
  have hlength : (ofEffects running effects).violations.length = width effects := by
    simp [ofEffects]
  rw [getElem?_addViolations, getD_violations_ofEffects, hlength, ofEffects, width_concat,
    List.getElem?_map, Effect.width]
  split_ifs with hj hviolated
  · rw [List.getElem?_range hj, Option.map_some, hcount, if_pos hviolated, UInt32.ofNat_add]
    rfl
  · rw [List.getElem?_range hj, Option.map_some, hcount, if_neg hviolated, UInt32.ofNat_add]
    rfl
  · rw [List.getElem?_eq_none (by simpa using hj)]
    rfl

/-- One more effect. -/
theorem apply_ofEffects (running : Bool) (effects : List Effect) (e : Effect) :
    e.apply (ofEffects running effects) = ofEffects running (effects ++ [e]) := by
  cases e with
  | success | failure | incomplete =>
    simp [Effect.apply, ofEffects, width_concat, Effect.width, Effect.violates, UInt32.ofNat_add]
  | violations gs =>
    rw [Effect.apply, addViolations_ofEffects]
    simp [ofEffects]

/-- **Effects applied one after the other are counted.** -/
theorem foldl_apply_ofEffects (running : Bool) (effects effects' : List Effect) :
    effects'.foldl (fun s e ↦ e.apply s) (ofEffects running effects) =
      ofEffects running (effects ++ effects') := by
  induction effects' generalizing effects with
  | nil => rw [List.foldl_nil, List.append_nil]
  | cons e effects' ih => rw [List.foldl_cons, apply_ofEffects, ih, List.append_assoc]; rfl

/-- The outcomes recorded one after the other, from fresh counts. -/
theorem foldl_record (running : Bool) (outcomes : List Outcome) :
    outcomes.foldl record { running } = ofEffects running (outcomes.flatMap Outcome.effects) := by
  rw [← List.nil_append (outcomes.flatMap _), ← foldl_apply_ofEffects, List.foldl_flatMap]
  rfl

/-! ### Bounds -/

theorem runs_ofEffects (running : Bool) (effects : List Effect) :
    (ofEffects running effects).runs = .ofNat (effects.countP Effect.countsRun) := by
  have hcount : effects.count .success + effects.count .failure + effects.count .incomplete =
      effects.countP Effect.countsRun := by
    induction effects with
    | nil => rfl
    | cons e effects ih =>
      cases e <;> simp [List.countP_cons, Effect.countsRun, ← ih] <;> omega
  rw [runs, ← hcount, UInt32.ofNat_add, UInt32.ofNat_add]
  rfl

/-- A count does not exceed another one if it does not do so in truth, and the other one has not
wrapped around. -/
theorem ofNat_le_ofNat {m n : Nat} (h : m ≤ n) (hn : n < UInt32.size) :
    UInt32.ofNat m ≤ UInt32.ofNat n := by
  rw [UInt32.le_iff_toNat_le, UInt32.toNat_ofNat_of_lt' (Nat.lt_of_le_of_lt h hn),
    UInt32.toNat_ofNat_of_lt' hn]
  exact h

theorem le_failures_of_mem_violations {running : Bool} {effects : List Effect}
    (h : ∀ j, effects.countP (·.violates j) ≤ effects.count .failure)
    (hsize : effects.count .failure < UInt32.size) {n : UInt32}
    (hn : n ∈ (ofEffects running effects).violations) :
    n ≤ (ofEffects running effects).failures := by
  obtain ⟨j, -, rfl⟩ := List.mem_map.1 hn
  exact ofNat_le_ofNat (h j) hsize

end Statistics

/-! ### The effects of outcomes -/

namespace Outcome

/-- A run fails if it counts and violates a guarantee. -/
def isFailure : Outcome → Bool
  | verified gs => !gs.all (·)
  | incomplete => false

/-- The run counts and violates the guarantee at position `j`. -/
def violates (j : Nat) : Outcome → Bool
  | verified gs => gs[j]? == some false
  | incomplete => false

/-- A failed run violates some guarantee. -/
theorem exists_violates_of_isFailure {gs : List Bool} (h : (verified gs).isFailure = true) :
    ∃ j < gs.length, (verified gs).violates j = true := by
  simp only [isFailure, Bool.not_eq_true', List.all_eq_false] at h
  obtain ⟨g, hg, hfalse⟩ := h
  obtain ⟨j, hj, rfl⟩ := List.getElem_of_mem hg
  refine ⟨j, hj, ?_⟩
  simpa [violates, List.getElem?_eq_getElem hj] using hfalse

theorem isFailure_of_violates {o : Outcome} {j : Nat} (h : o.violates j = true) :
    o.isFailure = true := by
  cases o with
  | incomplete => cases h
  | verified gs =>
    have hfalse : gs[j]? = some false := beq_iff_eq.1 h
    rw [isFailure, Bool.not_eq_true', List.all_eq_false]
    exact ⟨false, List.mem_of_getElem? hfalse, Bool.false_ne_true⟩

/-- How often a kind of effect occurs: once for each outcome that has it. -/
theorem countP_flatMap_effects {p : Effect → Bool} {q : Outcome → Bool}
    (h : ∀ o : Outcome, o.effects.countP p = if q o then 1 else 0) (outcomes : List Outcome) :
    (outcomes.flatMap effects).countP p = outcomes.countP q := by
  induction outcomes with
  | nil => rfl
  | cons o outcomes ih =>
    rw [List.flatMap_cons, List.countP_append, h, ih, List.countP_cons, Nat.add_comm]

theorem count_success (outcomes : List Outcome) :
    (outcomes.flatMap effects).count .success = outcomes.countP isSuccess := by
  refine countP_flatMap_effects (fun o ↦ ?_) outcomes
  cases o with
  | incomplete => rfl
  | verified gs => cases h : gs.all (·) <;> simp [effects, isSuccess, h]

theorem count_failure (outcomes : List Outcome) :
    (outcomes.flatMap effects).count .failure = outcomes.countP isFailure := by
  refine countP_flatMap_effects (fun o ↦ ?_) outcomes
  cases o with
  | incomplete => rfl
  | verified gs => cases h : gs.all (·) <;> simp [effects, isFailure, h]

theorem count_incomplete (outcomes : List Outcome) :
    (outcomes.flatMap effects).count .incomplete = outcomes.count .incomplete := by
  refine countP_flatMap_effects (fun o ↦ ?_) outcomes
  cases o with
  | incomplete => rfl
  | verified gs => cases h : gs.all (·) <;> simp [effects, h]

theorem countP_countsRun (outcomes : List Outcome) :
    (outcomes.flatMap effects).countP Effect.countsRun = outcomes.length := by
  rw [← List.countP_true]
  refine countP_flatMap_effects (fun o ↦ ?_) outcomes
  cases o with
  | incomplete => rfl
  | verified gs => cases h : gs.all (·) <;> (rw [effects, h]; rfl)

theorem countP_violates (outcomes : List Outcome) (j : Nat) :
    (outcomes.flatMap effects).countP (·.violates j) = outcomes.countP (·.violates j) := by
  refine countP_flatMap_effects (fun o ↦ ?_) outcomes
  cases o with
  | incomplete => rfl
  | verified gs =>
    cases h : gs.all (·) with
    | false => simp [effects, violates, Effect.violates, h]
    | true =>
      -- a run that succeeds has no violations to count
      have hnot : ¬(verified gs).violates j = true := by
        intro hviolates
        have hfailure := isFailure_of_violates hviolates
        rw [isFailure, h] at hfailure
        cases hfailure
      simp [effects, Effect.violates, h, hnot]

theorem length_effects_le (o : Outcome) : o.effects.length ≤ 2 := by
  cases o with
  | incomplete => exact Nat.le_succ 1
  | verified gs => cases h : gs.all (·) <;> simp [effects, h]

/-- Halfway through the effects of an outcome, violations are added only to a run that has already
been counted as failed. -/
theorem countP_violates_le_of_isPrefix {o : Outcome} {effects : List Effect}
    (h : effects <+: o.effects) (j : Nat) :
    effects.countP (·.violates j) ≤ effects.count .failure := by
  cases o with
  | incomplete => exact Nat.le_trans (h.sublist.countP_le) (Nat.zero_le _)
  | verified gs =>
    cases hall : gs.all (·) with
    | true =>
      rw [Outcome.effects, hall] at h
      exact Nat.le_trans (h.sublist.countP_le) (Nat.zero_le _)
    | false =>
      rw [Outcome.effects, hall] at h
      rcases List.prefix_cons_iff.1 h with rfl | ⟨rest, rfl, hrest⟩
      · exact Nat.le_refl 0
      · have hle : rest.countP (·.violates j) ≤ 1 :=
          Nat.le_trans List.countP_le_length hrest.length_le
        rw [List.countP_cons_of_neg Bool.false_ne_true, List.count_cons_self]
        omega

/-- When a run fails, there is a count for each guarantee; before that, there is none. -/
theorem width_flatMap_effects {guarantees : Nat} {outcomes : List Outcome}
    (h : ∀ gs, verified gs ∈ outcomes → gs.length = guarantees) :
    Statistics.width (outcomes.flatMap effects) =
      if outcomes.any isFailure then guarantees else 0 := by
  induction outcomes with
  | nil => rfl
  | cons o outcomes ih =>
    have hwidth : Statistics.width o.effects = if o.isFailure then guarantees else 0 := by
      cases o with
      | incomplete => rfl
      | verified gs =>
        have hlength := h gs List.mem_cons_self
        cases hall : gs.all (·) <;>
          simp [effects, isFailure, Statistics.width, Effect.width, hall, hlength]
    rw [List.flatMap_cons, Statistics.width_append, hwidth,
      ih fun gs hgs ↦ h gs (List.mem_cons_of_mem o hgs), List.any_cons]
    cases o.isFailure <;> cases outcomes.any isFailure <;> simp

/-- The runs that violate one of several guarantees are at most the violations of each of them
together. -/
theorem countP_any_violates_le (outcomes : List Outcome) (positions : List Nat) :
    outcomes.countP (fun o ↦ positions.any (o.violates ·)) ≤
      positions.foldr (fun j total ↦ outcomes.countP (·.violates j) + total) 0 := by
  induction positions with
  | nil => simp
  | cons j positions ih =>
    have hor : outcomes.countP (fun o ↦ (j :: positions).any (o.violates ·)) ≤
        outcomes.countP (·.violates j) +
          outcomes.countP (fun o ↦ positions.any (o.violates ·)) := by
      clear ih
      induction outcomes with
      | nil => exact Nat.le_refl 0
      | cons o outcomes ih =>
        simp only [List.countP_cons, List.any_cons] at ih ⊢
        cases o.violates j <;> cases positions.any (o.violates ·) <;> simp <;> omega
    exact Nat.le_trans hor (Nat.add_le_add_left ih _)

end Outcome

namespace Statistics

/-- The statistics tell exactly about some runs with the given number of guarantees. -/
structure Tally (s : Statistics) (guarantees : Nat) (outcomes : List Outcome) : Prop where
  /-- Runs that count and satisfy every guarantee. -/
  successes : s.successes.toNat = outcomes.countP Outcome.isSuccess
  /-- Runs that count and violate a guarantee. -/
  failures : s.failures.toNat = outcomes.countP Outcome.isFailure
  /-- Runs that do not count. -/
  incomplete : s.incomplete.toNat = outcomes.count .incomplete
  /-- Without a failed run no guarantee has a count. -/
  violations_eq_nil : outcomes.any Outcome.isFailure = false → s.violations = []
  /-- Otherwise each guarantee has the number of runs that violate it. -/
  violations_eq : outcomes.any Outcome.isFailure = true →
    s.violations.map UInt32.toNat =
      (List.range guarantees).map fun j ↦ outcomes.countP (·.violates j)
  /-- Every run is counted once. -/
  runs : s.runs.toNat = outcomes.length
  /-- A guarantee is violated by failed runs only. -/
  violations_le : ∀ n ∈ s.violations, n ≤ s.failures
  /-- A failed run violates at least one guarantee. -/
  failures_le : s.failures.toNat ≤ s.violations.foldr (fun n total ↦ n.toNat + total) 0

/-- **Recording is exact**, as long as the counts cannot wrap around. -/
theorem tally_ofEffects (running : Bool) {guarantees : Nat} {outcomes : List Outcome}
    (hsize : outcomes.length < UInt32.size)
    (hlength : ∀ gs, .verified gs ∈ outcomes → gs.length = guarantees) :
    (ofEffects running (outcomes.flatMap Outcome.effects)).Tally guarantees outcomes := by
  have hlt : ∀ p : Outcome → Bool, outcomes.countP p < UInt32.size := fun p ↦
    Nat.lt_of_le_of_lt List.countP_le_length hsize
  have htoNat : ∀ p : Outcome → Bool,
      (UInt32.ofNat (outcomes.countP p)).toNat = outcomes.countP p := fun p ↦
    UInt32.toNat_ofNat_of_lt' (hlt p)
  have hviolations : (ofEffects running (outcomes.flatMap Outcome.effects)).violations =
      (List.range (if outcomes.any Outcome.isFailure then guarantees else 0)).map fun j ↦
        .ofNat (outcomes.countP (·.violates j)) := by
    simp only [ofEffects, Outcome.width_flatMap_effects hlength, Outcome.countP_violates]
  have hfailures : (ofEffects running (outcomes.flatMap Outcome.effects)).failures.toNat =
      outcomes.countP Outcome.isFailure := by
    rw [ofEffects, Outcome.count_failure, htoNat]
  refine ⟨?_, hfailures, ?_, fun hnone ↦ ?_, fun hsome ↦ ?_, ?_, fun n hn ↦ ?_, ?_⟩
  · rw [ofEffects, Outcome.count_success, htoNat]
  · rw [ofEffects, Outcome.count_incomplete]
    exact htoNat _
  · rw [hviolations, hnone]
    rfl
  · rw [hviolations, hsome, if_pos rfl, List.map_map]
    exact List.map_congr_left fun j _ ↦ htoNat _
  · rw [runs_ofEffects, Outcome.countP_countsRun, UInt32.toNat_ofNat_of_lt' hsize]
  · refine le_failures_of_mem_violations (fun j ↦ ?_) ?_ hn
    · rw [Outcome.countP_violates, Outcome.count_failure]
      exact List.countP_mono_left fun o _ ↦ Outcome.isFailure_of_violates
    · rw [Outcome.count_failure]
      exact hlt _
  · -- a failed run violates a guarantee within the range of the counts
    rw [hfailures, hviolations, List.foldr_map]
    simp only [htoNat]
    refine Nat.le_trans (List.countP_mono_left fun o ho hfailure ↦ ?_)
      (Outcome.countP_any_violates_le outcomes _)
    cases o with
    | incomplete => cases hfailure
    | verified gs =>
      obtain ⟨j, hj, hviolates⟩ := Outcome.exists_violates_of_isFailure hfailure
      rw [if_pos (List.any_eq_true.2 ⟨_, ho, hfailure⟩), ← hlength gs ho]
      exact List.any_eq_true.2 ⟨j, List.mem_range.2 hj, hviolates⟩

end Statistics

end TemporalMonitor
