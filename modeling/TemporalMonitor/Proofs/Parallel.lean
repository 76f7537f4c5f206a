import Mathlib.Logic.Relation
import TemporalMonitor.Proofs.Batch

/-!
# Monitoring in parallel

In a parallel batch each source has a task of its own. A task performs its source and then has the
effects of the outcome on the common statistics, one at a time; between two effects of one task any
other task may have some of its own. A task that has not started may be skipped, but only after
another one has failed.

Whatever the order, the statistics are those of the effects that have happened so far, which are the
beginnings of the effects of the single outcomes (`Pool.sound_of_reachable`). So a guarantee never
has more violations than there are failures, and the statistics at the end are those of the sources
monitored one after the other.

Monitoring them one after the other is itself one of the orders (`Pool.endsWith_run`).
-/

namespace TemporalMonitor

open Relation

variable {ε : Type} {m : Monitor}

/-- How far a task has come. -/
inductive Stage (ε : Type) where
  /-- The source has not been performed. -/
  | waiting
  /-- The outcome is being recorded: some of its effects have happened, the others will. -/
  | recording (past pending : List Effect)
  /-- The source has failed. -/
  | failed (e : ε)
  /-- The source will not be performed, since another one has failed. -/
  | skipped

/-- A source of a parallel batch, and how far its run has come. -/
structure Task (ε : Type) where
  /-- The source. -/
  source : Source ε
  /-- How far its run has come. -/
  stage : Stage ε := .waiting

namespace Task

/-- The effects that the task has had. -/
def past (t : Task ε) : List Effect :=
  match t.stage with
  | .recording past _ => past
  | _ => []

/-- The source of the task has failed. -/
def hasFailed (t : Task ε) : Bool :=
  match t.stage with
  | .failed _ => true
  | _ => false

/-- The task has nothing left to do. -/
def hasEnded (t : Task ε) : Bool :=
  match t.stage with
  | .waiting => false
  | .recording _ pending => pending.isEmpty
  | _ => true

/-- One step of a task, with its effects. The flag tells whether a task of the batch has failed. -/
inductive Step (m : Monitor) (failing : Bool) : Task ε → List Effect → Task ε → Prop
  | perform {source : Source ε} {outcome : Outcome}
      (h : (source.experiment m.oracle).outcome = .ok outcome) :
      Step m failing ⟨source, .waiting⟩ [] ⟨source, .recording [] outcome.effects⟩
  | fail {source : Source ε} {e : ε} (h : (source.experiment m.oracle).outcome = .error e) :
      Step m failing ⟨source, .waiting⟩ [] ⟨source, .failed e⟩
  | record {source : Source ε} {past pending : List Effect} {e : Effect} :
      Step m failing ⟨source, .recording past (e :: pending)⟩ [e]
        ⟨source, .recording (past ++ [e]) pending⟩
  | skip {source : Source ε} (h : failing = true) :
      Step m failing ⟨source, .waiting⟩ [] ⟨source, .skipped⟩

/-- A bound for the number of steps that the task has before it. -/
def remaining (t : Task ε) : Nat :=
  match t.stage with
  | .waiting => 3
  | .recording _ pending => pending.length
  | _ => 0

/-- The stage of a task agrees with what its source gives. -/
def Fits (m : Monitor) (t : Task ε) : Prop :=
  match t.stage with
  | .recording past pending => ∃ outcome : Outcome,
    (t.source.experiment m.oracle).outcome = .ok outcome ∧ past ++ pending = outcome.effects
  | .failed e => (t.source.experiment m.oracle).outcome = .error e
  | _ => True

/-! ### What one step of a task does -/

namespace Step

variable {failing : Bool} {t t' : Task ε} {effects : List Effect}

theorem source_eq (h : t.Step m failing effects t') : t'.source = t.source := by
  cases h <;> rfl

theorem past_eq (h : t.Step m failing effects t') : t'.past = t.past ++ effects := by
  cases h <;> rfl

theorem fits (h : t.Step m failing effects t') (ht : t.Fits m) : t'.Fits m := by
  cases h with
  | perform h => exact ⟨_, h, rfl⟩
  | fail h => exact h
  | record =>
    obtain ⟨outcome, houtcome, heffects⟩ := ht
    exact ⟨outcome, houtcome, (List.append_assoc _ _ _).trans heffects⟩
  | skip h => trivial

/-- A failure is never taken back. -/
theorem hasFailed (h : t.Step m failing effects t') (ht : t.hasFailed = true) :
    t'.hasFailed = true := by
  cases h <;> cases ht

/-- A task is skipped after a failure only. -/
theorem failing_of_skipped (h : t.Step m failing effects t') (ht : t'.stage = .skipped) :
    failing = true := by
  cases h with
  | perform | fail | record => cases ht
  | skip h => exact h

theorem remaining_lt (h : t.Step m failing effects t') : t'.remaining < t.remaining := by
  cases h with
  | @perform source outcome h => exact Nat.lt_succ_of_le outcome.length_effects_le
  | fail h => exact Nat.zero_lt_succ 2
  | record => exact Nat.lt_succ_self _
  | skip h => exact Nat.zero_lt_succ 2

end Step

/-- A task that has not ended can take a step. -/
theorem exists_step {t : Task ε} (h : t.hasEnded ≠ true) (failing : Bool) :
    ∃ effects t', t.Step m failing effects t' := by
  obtain ⟨source, stage⟩ := t
  cases stage with
  | waiting =>
    cases houtcome : (source.experiment m.oracle).outcome with
    | ok outcome => exact ⟨_, _, .perform houtcome⟩
    | error e => exact ⟨_, _, .fail houtcome⟩
  | recording past pending =>
    cases pending with
    | nil => exact absurd rfl h
    | cons e pending => exact ⟨_, _, .record⟩
  | failed e => exact absurd rfl h
  | skipped => exact absurd rfl h

/-! ### What has happened -/

/-- A run is counted at most once, and violations are added only after it has been counted as
failed. -/
theorem countP_past_le {t : Task ε} (ht : t.Fits m) :
    t.past.countP Effect.countsRun ≤ 1 ∧
      ∀ j, t.past.countP (·.violates j) ≤ t.past.count .failure := by
  obtain ⟨source, stage⟩ := t
  cases stage with
  | waiting | failed | skipped => exact ⟨Nat.zero_le 1, fun j ↦ Nat.le_refl 0⟩
  | recording past pending =>
    obtain ⟨outcome, -, heffects⟩ := ht
    have hbelow : past <+: outcome.effects := ⟨pending, heffects⟩
    have hone : outcome.effects.countP Effect.countsRun = 1 := by
      simpa using Outcome.countP_countsRun [outcome]
    exact ⟨hone ▸ hbelow.sublist.countP_le, Outcome.countP_violates_le_of_isPrefix hbelow⟩

end Task

/-- A parallel batch at some moment. -/
structure Pool (ε : Type) where
  /-- A task for each source. -/
  tasks : List (Task ε)
  /-- The counts so far. -/
  statistics : Statistics

namespace Pool

/-- The beginning of a parallel batch. -/
def start (m : Monitor) (sources : List (Source ε)) : Pool ε where
  tasks := sources.map ({ source := · })
  statistics := m.statistics.reset

/-- Some task has failed. -/
def failing (s : Pool ε) : Bool := s.tasks.any Task.hasFailed

/-- One step of a parallel batch is a step of one of its tasks. -/
inductive Step (m : Monitor) : Pool ε → Pool ε → Prop
  | task {before after : List (Task ε)} {t t' : Task ε} {effects : List Effect}
      {statistics : Statistics}
      (h : t.Step m ((before ++ t :: after).any Task.hasFailed) effects t') :
      Step m ⟨before ++ t :: after, statistics⟩
        ⟨before ++ t' :: after, effects.foldl (fun s e ↦ e.apply s) statistics⟩

/-- Every task has ended. -/
def Ended (s : Pool ε) : Prop := ∀ t ∈ s.tasks, t.hasEnded = true

/-- The batch may give the failure: one of those that have occurred, or none if there is none. -/
def Gives (s : Pool ε) : Option (Nat × ε) → Prop
  | none => s.failing = false
  | some (i, e) => ∃ source, s.tasks[i]? = some ⟨source, .failed e⟩

/-! ### The invariant of a parallel batch -/

/-- What holds at every moment of a parallel batch. -/
structure Sound (m : Monitor) (sources : List (Source ε)) (s : Pool ε) : Prop where
  /-- There is a task for each source. -/
  map_source : s.tasks.map Task.source = sources
  /-- The stage of each task agrees with what its source gives. -/
  fits : ∀ t ∈ s.tasks, t.Fits m
  /-- A task is skipped after a failure only. -/
  failing_of_skipped : ∀ t ∈ s.tasks, t.stage = .skipped → s.failing = true
  /-- The statistics are those of the effects of all tasks. -/
  statistics_eq : s.statistics = .ofEffects true (s.tasks.flatMap Task.past)

theorem sound_start (sources : List (Source ε)) : Sound m sources (start m sources) where
  map_source := by
    rw [start, List.map_map]
    exact List.map_id sources
  fits t ht := by
    obtain ⟨source, -, rfl⟩ := List.mem_map.1 ht
    trivial
  failing_of_skipped t ht hskipped := by
    obtain ⟨source, -, rfl⟩ := List.mem_map.1 ht
    cases hskipped
  statistics_eq := by
    have hpast : (start m sources).tasks.flatMap Task.past = [] := by simp [start, Task.past]
    rw [hpast, start, Statistics.reset_eq]
    rfl

/-- Every step preserves the invariant. -/
theorem Sound.step {sources : List (Source ε)} {s s' : Pool ε} (hs : Sound m sources s)
    (h : s.Step m s') : Sound m sources s' := by
  obtain @⟨before, after, t, t', effects, statistics, h⟩ := h
  have hmem : ∀ u ∈ before ++ t' :: after, u = t' ∨ u ∈ before ++ t :: after := by
    intro u hu
    simp only [List.mem_append, List.mem_cons] at hu ⊢
    tauto
  have hfailing : (before ++ t :: after).any Task.hasFailed = true →
      (before ++ t' :: after).any Task.hasFailed = true := by
    simp only [List.any_append, List.any_cons, Bool.or_eq_true]
    exact Or.imp_right (Or.imp_left h.hasFailed)
  refine ⟨?_, fun u hu ↦ ?_, fun u hu hskipped ↦ ?_, ?_⟩
  · rw [← hs.map_source]
    simp [h.source_eq]
  · rcases hmem u hu with rfl | hu
    · exact h.fits (hs.fits t (by simp))
    · exact hs.fits u hu
  · refine hfailing ?_
    rcases hmem u hu with rfl | hu
    · exact h.failing_of_skipped hskipped
    · exact hs.failing_of_skipped u hu hskipped
  · -- the new effects stand in the middle of the list, behind those that the task had before
    have hperm : ((before ++ t :: after).flatMap Task.past ++ effects).Perm
        ((before ++ t' :: after).flatMap Task.past) := by
      simp only [List.flatMap_append, List.flatMap_cons, h.past_eq, List.append_assoc]
      exact ((List.perm_append_comm).append_left _).append_left _
    have hstatistics : statistics = .ofEffects true ((before ++ t :: after).flatMap Task.past) :=
      hs.statistics_eq
    rw [← Statistics.ofEffects_perm true hperm, ← Statistics.foldl_apply_ofEffects, ← hstatistics]

/-- The invariant holds at every moment, whatever the order of the steps. -/
theorem sound_of_reachable {sources : List (Source ε)} {s : Pool ε}
    (h : ReflTransGen (Step m) (start m sources) s) : Sound m sources s := by
  induction h with
  | refl => exact sound_start sources
  | tail _ hstep ih => exact ih.step hstep

/-! ### The counts at any moment -/

theorem countP_flatMap_past_le {tasks : List (Task ε)} (h : ∀ t ∈ tasks, t.Fits m) :
    (tasks.flatMap Task.past).countP Effect.countsRun ≤ tasks.length ∧
      ∀ j, (tasks.flatMap Task.past).countP (·.violates j) ≤
        (tasks.flatMap Task.past).count .failure := by
  induction tasks with
  | nil => exact ⟨Nat.le_refl 0, fun j ↦ Nat.le_refl 0⟩
  | cons t tasks ih =>
    obtain ⟨hruns, hviolates⟩ := ih fun u hu ↦ h u (List.mem_cons_of_mem t hu)
    obtain ⟨hrun, hviolate⟩ := Task.countP_past_le (h t List.mem_cons_self)
    simp only [List.flatMap_cons, List.countP_append, List.count_append, List.length_cons]
    exact ⟨by omega, fun j ↦ Nat.add_le_add (hviolate j) (hviolates j)⟩

theorem Sound.runs_le {sources : List (Source ε)} {s : Pool ε} (hs : Sound m sources s)
    (hsize : sources.length < UInt32.size) : s.statistics.runs.toNat ≤ sources.length := by
  have hle := (countP_flatMap_past_le hs.fits).1
  rw [← List.length_map Task.source, hs.map_source] at hle
  rw [hs.statistics_eq, Statistics.runs_ofEffects,
    UInt32.toNat_ofNat_of_lt' (Nat.lt_of_le_of_lt hle hsize)]
  exact hle

theorem Sound.violations_le {sources : List (Source ε)} {s : Pool ε} (hs : Sound m sources s)
    (hsize : sources.length < UInt32.size) {n : UInt32} (hn : n ∈ s.statistics.violations) :
    n ≤ s.statistics.failures := by
  obtain ⟨hruns, hviolates⟩ := countP_flatMap_past_le hs.fits
  have hfailures : (s.tasks.flatMap Task.past).count .failure ≤ sources.length := by
    rw [← hs.map_source, List.length_map]
    refine Nat.le_trans (List.countP_mono_left fun e _ he ↦ ?_) hruns
    rw [eq_of_beq he]
    rfl
  rw [hs.statistics_eq] at hn ⊢
  exact Statistics.le_failures_of_mem_violations hviolates (Nat.lt_of_le_of_lt hfailures hsize) hn

/-! ### Coming to an end -/

/-- A bound for the number of steps that some tasks have before them. -/
def remaining : List (Task ε) → Nat
  | [] => 0
  | t :: tasks => t.remaining + remaining tasks

theorem remaining_append (tasks tasks' : List (Task ε)) :
    remaining (tasks ++ tasks') = remaining tasks + remaining tasks' := by
  induction tasks with
  | nil => exact (Nat.zero_add _).symm
  | cons t tasks ih => rw [List.cons_append, remaining, ih, remaining, Nat.add_assoc]

theorem Step.remaining_lt {s s' : Pool ε} (h : s.Step m s') :
    remaining s'.tasks < remaining s.tasks := by
  obtain @⟨before, after, t, t', effects, statistics, h⟩ := h
  have hlt := h.remaining_lt
  simp only [remaining_append, remaining]
  omega

/-- No order of the steps goes on forever. -/
theorem wellFounded_step : WellFounded fun s' s : Pool ε ↦ s.Step m s' :=
  Subrelation.wf Step.remaining_lt (measure fun s : Pool ε ↦ remaining s.tasks).wf

theorem exists_step {s : Pool ε} (h : ¬s.Ended) : ∃ s', s.Step m s' := by
  obtain ⟨tasks, statistics⟩ := s
  simp only [Ended, not_forall] at h
  obtain ⟨t, ht, hended⟩ := h
  obtain ⟨before, after, rfl⟩ := List.append_of_mem ht
  obtain ⟨effects, t', hstep⟩ :=
    Task.exists_step (m := m) hended ((before ++ t :: after).any Task.hasFailed)
  exact ⟨_, .task hstep⟩

/-- Whatever has happened so far, the batch can be brought to its end. -/
theorem exists_ended (m : Monitor) (s : Pool ε) :
    ∃ s', ReflTransGen (Step m) s s' ∧ s'.Ended := by
  induction s using (wellFounded_step (m := m)).induction with
  | _ s ih =>
    by_cases hended : s.Ended
    · exact ⟨s, .refl, hended⟩
    · obtain ⟨s', hstep⟩ := exists_step (m := m) hended
      obtain ⟨s'', hsteps, hended'⟩ := ih s' hstep
      exact ⟨s'', .head hstep hsteps, hended'⟩

theorem exists_gives (s : Pool ε) : ∃ failure, s.Gives failure := by
  cases hfailing : s.failing with
  | false => exact ⟨none, hfailing⟩
  | true =>
    obtain ⟨⟨source, stage⟩, ht, hfailed⟩ := List.any_eq_true.1 hfailing
    obtain ⟨i, hi⟩ := List.getElem?_of_mem ht
    cases stage with
    | failed e => exact ⟨some (i, e), source, hi⟩
    | waiting | recording | skipped => cases hfailed

/-! ### Agreement with monitoring one after the other -/

/-- A task at the end of a batch without a failure has had all the effects of its outcome. -/
theorem Sound.past_eq {sources : List (Source ε)} {s : Pool ε} (hs : Sound m sources s)
    (hended : s.Ended) (hfailing : s.failing = false) {t : Task ε} (ht : t ∈ s.tasks) :
    ∃ outcome, (t.source.experiment m.oracle).outcome = .ok outcome ∧ t.past = outcome.effects := by
  have hfits := hs.fits t ht
  have hskipped := hs.failing_of_skipped t ht
  have hend := hended t ht
  have hfailed := List.any_eq_false.1 hfailing t ht
  obtain ⟨source, stage⟩ := t
  cases stage with
  | waiting => cases hend
  | failed e => exact absurd rfl hfailed
  | skipped => exact absurd (hskipped rfl) (hfailing ▸ Bool.false_ne_true)
  | recording past pending =>
    obtain ⟨outcome, houtcome, heffects⟩ := hfits
    rw [List.isEmpty_iff.1 hend, List.append_nil] at heffects
    exact ⟨outcome, houtcome, heffects⟩

theorem flatMap_past_eq {tasks : List (Task ε)}
    (h : ∀ t ∈ tasks, ∃ outcome, (t.source.experiment m.oracle).outcome = .ok outcome ∧
      t.past = outcome.effects) :
    tasks.flatMap Task.past =
      (completed ((tasks.map Task.source).map fun source ↦
        (source.experiment m.oracle).outcome)).flatMap Outcome.effects := by
  induction tasks with
  | nil => rfl
  | cons t tasks ih =>
    obtain ⟨outcome, houtcome, hpast⟩ := h t List.mem_cons_self
    rw [List.map_cons, List.map_cons, houtcome, completed, List.flatMap_cons, List.flatMap_cons,
      hpast, ih fun u hu ↦ h u (List.mem_cons_of_mem t hu)]

/-- The statistics at the end of a batch without a failure. -/
theorem Sound.statistics_eq_run {sources : List (Source ε)} {s : Pool ε}
    (hs : Sound m sources s) (hended : s.Ended) (hfailing : s.failing = false) :
    { s.statistics with running := false } = (m.run sources).statistics := by
  have hpast := flatMap_past_eq fun t ht ↦ hs.past_eq hended hfailing ht
  rw [Monitor.statistics_run, ← hs.map_source, ← hpast, hs.statistics_eq]
  rfl

/-- At the end no task has failed exactly if no source fails. -/
theorem Sound.failing_eq_false_iff {sources : List (Source ε)} {s : Pool ε}
    (hs : Sound m sources s) (hended : s.Ended) :
    s.failing = false ↔
      ∀ source ∈ sources, ∃ outcome, (source.experiment m.oracle).outcome = .ok outcome := by
  refine ⟨fun hfailing source hsource ↦ ?_, fun hok ↦ List.any_eq_false.2 fun t ht hfailed ↦ ?_⟩
  · -- then no task was skipped either, so the source has been performed
    rw [← hs.map_source] at hsource
    obtain ⟨t, ht, rfl⟩ := List.mem_map.1 hsource
    obtain ⟨outcome, houtcome, -⟩ := hs.past_eq hended hfailing ht
    exact ⟨outcome, houtcome⟩
  · obtain ⟨outcome, houtcome⟩ := hok t.source (hs.map_source ▸ List.mem_map_of_mem ht)
    have hfits := hs.fits t ht
    obtain ⟨source, stage⟩ := t
    cases stage with
    | failed e => cases hfits.symm.trans houtcome
    | waiting | recording | skipped => cases hfailed

theorem failing_of_gives {s : Pool ε} {f : Nat × ε} (h : s.Gives (some f)) : s.failing = true := by
  obtain ⟨source, hi⟩ := h
  exact List.any_eq_true.2 ⟨_, List.mem_of_getElem? hi, rfl⟩

/-- What a failure that a batch gives says. -/
theorem Sound.error_of_gives {sources : List (Source ε)} {s : Pool ε} (hs : Sound m sources s)
    {i : Nat} {e : ε} (h : s.Gives (some (i, e))) :
    ∃ source, sources[i]? = some source ∧
      (source.experiment m.oracle).outcome = .error e := by
  obtain ⟨source, hi⟩ := h
  refine ⟨source, ?_, hs.fits _ (List.mem_of_getElem? hi)⟩
  rw [← hs.map_source, List.getElem?_map, hi]
  rfl

/-- A batch over sources that do not fail gives no failure. -/
theorem Sound.gives_none {sources : List (Source ε)} {s : Pool ε} (hs : Sound m sources s)
    (hended : s.Ended)
    (h : ∀ source ∈ sources, ∃ outcome, (source.experiment m.oracle).outcome = .ok outcome) :
    s.Gives none ∧ ∀ failure, s.Gives failure → failure = none := by
  have hfailing := (hs.failing_eq_false_iff hended).2 h
  refine ⟨hfailing, fun failure hgives ↦ ?_⟩
  cases failure with
  | none => rfl
  | some f => exact absurd (failing_of_gives hgives) (hfailing ▸ Bool.false_ne_true)

/-- A batch over sources one of which fails gives the failure of one that does. -/
theorem Sound.exists_error_of_gives {sources : List (Source ε)} {s : Pool ε}
    (hs : Sound m sources s) (hended : s.Ended)
    (h : ∃ source ∈ sources, ∃ e, (source.experiment m.oracle).outcome = .error e)
    {failure : Option (Nat × ε)} (hgives : s.Gives failure) :
    ∃ i e source, failure = some (i, e) ∧ sources[i]? = some source ∧
      (source.experiment m.oracle).outcome = .error e := by
  cases failure with
  | none =>
    obtain ⟨source, hsource, e, he⟩ := h
    obtain ⟨outcome, houtcome⟩ := (hs.failing_eq_false_iff hended).1 hgives source hsource
    cases he.symm.trans houtcome
  | some f =>
    obtain ⟨i, e⟩ := f
    obtain ⟨source, hsource, he⟩ := hs.error_of_gives hgives
    exact ⟨i, e, source, rfl, hsource, he⟩

/-- What a parallel batch promises at some moment, with respect to its sources monitored one after
the other. -/
structure AgreesWithRun (m : Monitor) (sources : List (Source ε)) (s : Pool ε) : Prop where
  /-- A guarantee has at most as many violations as there are failed runs. -/
  violations_le : ∀ n ∈ s.statistics.violations, n ≤ s.statistics.failures
  /-- No more runs are counted than there are sources. -/
  runs_le : s.statistics.runs.toNat ≤ sources.length
  /-- The batch can be brought to its end. -/
  exists_ended : ∃ s', ReflTransGen (Step m) s s' ∧ s'.Ended
  /-- It gives a failure, or none. -/
  exists_gives : ∃ failure, s.Gives failure
  /-- If no source fails, it ends with the statistics of the sequential batch, and succeeds. -/
  eq_run : s.Ended →
    (∀ source ∈ sources, ∃ outcome, (source.experiment m.oracle).outcome = .ok outcome) →
    { s.statistics with running := false } = (m.run sources).statistics ∧
      ∀ failure, s.Gives failure → failure = none ∧ (m.run sources).failure = none
  /-- If some source fails, it ends with a failure that occurs, at the position given. -/
  fails : s.Ended →
    (∃ source ∈ sources, ∃ e, (source.experiment m.oracle).outcome = .error e) →
    ∀ failure, s.Gives failure → ∃ i e source, failure = some (i, e) ∧
      sources[i]? = some source ∧ (source.experiment m.oracle).outcome = .error e

/-- **Parallel monitoring agrees with sequential monitoring**, at every moment and whatever the
order of the steps. -/
theorem agreesWithRun_of_reachable {sources : List (Source ε)}
    (hsize : sources.length < UInt32.size) {s : Pool ε}
    (h : ReflTransGen (Step m) (start m sources) s) : AgreesWithRun m sources s := by
  have hs := sound_of_reachable h
  refine ⟨fun n ↦ hs.violations_le hsize, hs.runs_le hsize, exists_ended m s, s.exists_gives,
    fun hended hok ↦ ?_, fun hended hfails failure hgives ↦ ?_⟩
  · obtain ⟨hnone, hgives⟩ := hs.gives_none hended hok
    exact ⟨hs.statistics_eq_run hended hnone, fun failure hfailure ↦
      ⟨hgives failure hfailure, Monitor.failure_run_eq_none hok⟩⟩
  · exact hs.exists_error_of_gives hended hfails hgives

/-- Between the two effects of a failed run, another one is performed and recorded. -/
theorem agreesWithRun_of_reachable_overtaken :
    let m : Monitor := { oracle := .ofFormulas [] [.var 0] }
    let violated : Source Empty := .ofStates [[some false]]
    let satisfied : Source Empty := .ofStates [[some true]]
    let s : Pool Empty :=
      { tasks := [⟨violated, .recording [.failure, .violations [false]] []⟩,
          ⟨satisfied, .recording [.success] []⟩]
        statistics := { running := true, successes := 1, failures := 1, violations := [1] } }
    ReflTransGen (Step m) (start m [violated, satisfied]) s ∧ s.Ended ∧
      AgreesWithRun m [violated, satisfied] s := by
  intro m violated satisfied s
  have hviolated : (violated.experiment m.oracle).outcome = .ok (.verified [false]) := rfl
  have hsatisfied : (satisfied.experiment m.oracle).outcome = .ok (.verified [true]) := rfl
  let overtaken : Stage Empty := .recording [.failure] [.violations [false]]
  let overtaking : Stage Empty := .recording [] [.success]
  have hreach : ReflTransGen (Step m) (start m [violated, satisfied]) s := calc
    ReflTransGen (Step m) (start m [violated, satisfied])
        ⟨[⟨violated, .recording [] [.failure, .violations [false]]⟩, ⟨satisfied, .waiting⟩],
          { running := true }⟩ := .single (@Step.task _ _ [] _ _ _ _ _ (.perform hviolated))
    ReflTransGen (Step m) _ ⟨[⟨violated, overtaken⟩, ⟨satisfied, .waiting⟩],
        { running := true, failures := 1 }⟩ := .single (@Step.task _ _ [] _ _ _ _ _ .record)
    ReflTransGen (Step m) _ ⟨[⟨violated, overtaken⟩, ⟨satisfied, overtaking⟩],
        { running := true, failures := 1 }⟩ :=
      .single (@Step.task _ _ [⟨violated, overtaken⟩] [] _ _ _ _ (.perform hsatisfied))
    ReflTransGen (Step m) _ ⟨[⟨violated, overtaken⟩, ⟨satisfied, .recording [.success] []⟩],
        { running := true, successes := 1, failures := 1 }⟩ :=
      .single (@Step.task _ _ [⟨violated, overtaken⟩] [] _ _ _ _ .record)
    ReflTransGen (Step m) _ s := .single (@Step.task _ _ [] _ _ _ _ _ .record)
  have hended : s.Ended := by simp [Ended, s, Task.hasEnded]
  exact ⟨hreach, hended, agreesWithRun_of_reachable (by decide) hreach⟩

/-! ### The batch that comes of it -/

/-- A parallel batch may end as the batch `b`: in some order its steps lead to the statistics of
`b`, and it may give the failure of `b`. The order of the records is left open. -/
def EndsWith (m : Monitor) (sources : List (Source ε)) (b : Batch ε) : Prop :=
  ∃ s, ReflTransGen (Step m) (start m sources) s ∧ s.Ended ∧
    b.statistics = { s.statistics with running := false } ∧ s.Gives b.failure

section EndsWith

variable {sources : List (Source ε)} {b : Batch ε}

/-- Without a failure every order ends as monitoring one after the other does. -/
theorem EndsWith.eq_run (h : EndsWith m sources b)
    (hok : ∀ source ∈ sources, ∃ outcome, (source.experiment m.oracle).outcome = .ok outcome) :
    b.statistics = (m.run sources).statistics ∧ b.failure = none := by
  obtain ⟨s, hreach, hended, hstatistics, hgives⟩ := h
  have hs := sound_of_reachable hreach
  obtain ⟨hnone, hfailure⟩ := hs.gives_none hended hok
  exact ⟨hstatistics.trans (hs.statistics_eq_run hended hnone), hfailure _ hgives⟩

/-- With a failure every order ends with one, but not all orders with the same one. -/
theorem EndsWith.exists_error (h : EndsWith m sources b)
    (hfails : ∃ source ∈ sources, ∃ e, (source.experiment m.oracle).outcome = .error e) :
    ∃ i e source, b.failure = some (i, e) ∧ sources[i]? = some source ∧
      (source.experiment m.oracle).outcome = .error e := by
  obtain ⟨s, hreach, hended, -, hgives⟩ := h
  exact (sound_of_reachable hreach).exists_error_of_gives hended hfails hgives

end EndsWith

/-! ### One worker -/

/-- The effects of an outcome can happen one after the other. -/
theorem reachable_record (before after : List (Task ε)) (source : Source ε)
    (past pending : List Effect) (statistics : Statistics) :
    ReflTransGen (Step m) ⟨before ++ ⟨source, .recording past pending⟩ :: after, statistics⟩
      ⟨before ++ ⟨source, .recording (past ++ pending) []⟩ :: after,
        pending.foldl (fun s e ↦ e.apply s) statistics⟩ := by
  induction pending generalizing past statistics with
  | nil =>
    rw [List.append_nil]
    exact .refl
  | cons e pending ih =>
    have hrest := ih (past ++ [e]) (e.apply statistics)
    rw [List.append_assoc, List.singleton_append] at hrest
    exact .head (.task .record) hrest

/-- After a failure the sources that have not been performed can be skipped. -/
theorem reachable_skip (before after : List (Task ε)) {t : Task ε} (ht : t ∈ before ++ after)
    (hfailed : t.hasFailed = true) (sources : List (Source ε)) (statistics : Statistics) :
    ReflTransGen (Step m) ⟨before ++ (sources.map ({ source := · }) ++ after), statistics⟩
      ⟨before ++ (sources.map (⟨·, .skipped⟩) ++ after), statistics⟩ := by
  rw [List.mem_append] at ht
  induction sources generalizing before with
  | nil => exact .refl
  | cons source sources ih =>
    have hrest := ih (before ++ [⟨source, .skipped⟩]) (ht.imp_left (List.mem_append_left _))
    rw [List.append_assoc, List.append_assoc] at hrest
    refine .head (.task (.skip (List.any_eq_true.2 ⟨t, ?_, hfailed⟩))) hrest
    refine List.mem_append.2 (ht.imp_right fun ht ↦ List.mem_cons_of_mem _ ?_)
    exact List.mem_append_right _ ht

/-- So can the sources behind the one that failed. -/
theorem reachable_skip_behind (before : List (Task ε)) (source : Source ε) (e : ε)
    (sources : List (Source ε)) (statistics : Statistics) :
    ReflTransGen (Step m)
      ⟨before ++ ⟨source, .failed e⟩ :: sources.map ({ source := · }), statistics⟩
      ⟨before ++ ⟨source, .failed e⟩ :: sources.map (⟨·, .skipped⟩), statistics⟩ := by
  have hskip := reachable_skip (m := m) (before ++ [⟨source, .failed e⟩]) []
    (List.mem_append_left [] List.mem_concat_self) rfl sources statistics
  rwa [List.append_nil, List.append_nil, List.append_assoc, List.append_assoc] at hskip

/-- The sources behind some that have ended without a failure, performed one after the other. -/
theorem exists_ended_performAll (before : List (Task ε))
    (hended : ∀ t ∈ before, t.hasEnded = true) (hfailing : before.any Task.hasFailed = false)
    (statistics : Statistics) (sources : List (Source ε)) :
    let b := (Monitor.performAll (fun _ source world ↦ (m.performSource source, world))
      before.length statistics sources ()).1
    ∃ s, ReflTransGen (Step m) ⟨before ++ sources.map ({ source := · }), statistics⟩ s ∧
      s.Ended ∧ s.statistics = b.statistics ∧ s.Gives b.failure := by
  induction sources generalizing before statistics with
  | nil =>
    refine ⟨_, .refl, ?_, rfl, ?_⟩
    · simpa [Ended] using hended
    · simpa [Gives, failing, Monitor.performAll] using hfailing
  | cons source sources ih =>
    cases houtcome : (source.experiment m.oracle).outcome with
    | error e =>
      -- the source fails, and the others are skipped
      have hskip := reachable_skip_behind (m := m) before source e sources statistics
      simp only [Monitor.performAll, Monitor.performSource, houtcome]
      refine ⟨_, .head (.task (.fail houtcome)) hskip, fun t ht ↦ ?_, rfl, source, ?_⟩
      · rcases List.mem_append.1 ht with ht | ht
        · exact hended t ht
        · rcases List.mem_cons.1 ht with rfl | ht
          · rfl
          · obtain ⟨source', -, rfl⟩ := List.mem_map.1 ht
            rfl
      · rw [List.getElem?_append_right (Nat.le_refl _), Nat.sub_self]
        rfl
    | ok outcome =>
      have hrecord := reachable_record (m := m) before (sources.map ({ source := · })) source []
        outcome.effects statistics
      obtain ⟨s, hreach, hs⟩ := ih (before ++ [⟨source, .recording outcome.effects []⟩])
        (by simpa [or_imp, forall_and, Task.hasEnded] using hended)
        (by simpa [Task.hasFailed] using hfailing) (statistics.record outcome)
      rw [List.append_assoc, List.singleton_append] at hreach
      rw [List.length_append, List.length_singleton] at hs
      simp only [Monitor.performAll, Monitor.performSource, houtcome]
      exact ⟨s, (ReflTransGen.head (.task (.perform houtcome)) hrecord).trans hreach, hs⟩

/-- **Monitoring one after the other is one of the orders** in which a parallel batch may end. -/
theorem endsWith_run (m : Monitor) (sources : List (Source ε)) :
    EndsWith m sources (m.run sources) := by
  obtain ⟨s, hreach, hended, hstatistics, hgives⟩ :=
    exists_ended_performAll (m := m) [] (by simp) rfl m.statistics.reset sources
  exact ⟨s, hreach, hended,
    congrArg (fun s : Statistics ↦ { s with running := false }) hstatistics.symm, hgives⟩

/-- Whichever source fails, there is an order in which its failure is the one that is given. -/
theorem exists_endsWith_iff {sources : List (Source ε)} {i : Nat} {e : ε} :
    (∃ b, EndsWith m sources b ∧ b.failure = some (i, e)) ↔
      ∃ source, sources[i]? = some source ∧
        (source.experiment m.oracle).outcome = .error e := by
  constructor
  · rintro ⟨b, ⟨s, hreach, -, -, hgives⟩, hfailure⟩
    rw [hfailure] at hgives
    exact (sound_of_reachable hreach).error_of_gives hgives
  · rintro ⟨source, hsource, he⟩
    -- the source is performed first, and all others are skipped
    obtain ⟨front, back, rfl, rfl⟩ : ∃ front back, sources = front ++ source :: back ∧
        i = front.length := by
      obtain ⟨hi, rfl⟩ := List.getElem?_eq_some_iff.1 hsource
      refine ⟨sources.take i, sources.drop (i + 1), ?_, ?_⟩
      · rw [← List.drop_eq_getElem_cons hi, List.take_append_drop]
      · rw [List.length_take, Nat.min_eq_left (Nat.le_of_lt hi)]
    have hstep : Step m (start m (front ++ source :: back))
        ⟨front.map ({ source := · }) ++ ⟨source, .failed e⟩ :: back.map ({ source := · }),
          m.statistics.reset⟩ := by
      rw [start, List.map_append, List.map_cons]
      exact .task (.fail he)
    have hfront := reachable_skip (m := m) [] (⟨source, .failed e⟩ :: back.map ({ source := · }))
      List.mem_cons_self rfl front m.statistics.reset
    have hback := reachable_skip_behind (m := m) (front.map (⟨·, .skipped⟩)) source e back
      m.statistics.reset
    refine ⟨⟨{ m.statistics.reset with running := false }, some (front.length, e), []⟩,
      ⟨_, (ReflTransGen.head hstep hfront).trans hback, ?_, rfl, source, ?_⟩, rfl⟩
    · simp [Ended, or_imp, forall_and, Task.hasEnded]
    · simp

end Pool

end TemporalMonitor
