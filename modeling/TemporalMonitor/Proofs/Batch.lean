import TemporalMonitor.Monitor
import TemporalMonitor.Proofs.Counts

/-!
# What a batch reports

The statistics of a batch count the runs before the first failure, each of them exactly once, and
its failure is the first one, with its position (`Monitor.reports_batch`). This holds for whatever
way of performing the items of a batch, also if it reads the counts so far and changes the world.

Monitoring and tracing are the two ways. For monitoring, the result of a source depends on nothing
but the oracle (`results_performSource`).
-/

namespace TemporalMonitor

variable {α ε ω : Type}

/-! ### Results up to the first failure -/

/-- The position of the first failure, or the number of results if there is none. -/
def firstFailure (results : List (Except ε Outcome)) : Nat :=
  results.findIdx fun r ↦ !r.isOk

/-- The outcomes before the first failure. -/
def completed : List (Except ε Outcome) → List Outcome
  | .ok o :: results => o :: completed results
  | _ => []

theorem firstFailure_ok (o : Outcome) (results : List (Except ε Outcome)) :
    firstFailure (.ok o :: results) = firstFailure results + 1 := by
  simp [firstFailure, List.findIdx_cons, Except.isOk, Except.toBool]

theorem firstFailure_error (e : ε) (results : List (Except ε Outcome)) :
    firstFailure (.error e :: results) = 0 := rfl

theorem take_firstFailure (results : List (Except ε Outcome)) :
    results.take (firstFailure results) = (completed results).map .ok := by
  induction results with
  | nil => rfl
  | cons r results ih =>
    cases r with
    | ok o => rw [firstFailure_ok, List.take_succ_cons, ih, completed, List.map_cons]
    | error e => rfl

theorem length_completed (results : List (Except ε Outcome)) :
    (completed results).length = firstFailure results := by
  have h := congrArg List.length (take_firstFailure results)
  have hle : firstFailure results ≤ results.length := List.findIdx_le_length
  rw [List.length_take, Nat.min_eq_left hle, List.length_map] at h
  exact h.symm

/-- At the position of the first failure there is a failure, unless it is the end. -/
theorem exists_error_of_lt {results : List (Except ε Outcome)}
    (h : firstFailure results < results.length) :
    ∃ e, results[firstFailure results]? = some (.error e) := by
  induction results with
  | nil => exact absurd h (Nat.not_lt_zero _)
  | cons r results ih =>
    cases r with
    | ok o =>
      rw [firstFailure_ok] at h ⊢
      exact ih (Nat.lt_of_succ_lt_succ h)
    | error e => exact ⟨e, rfl⟩

/-- What a batch has to report, given the result of each item and the number of guarantees. -/
structure Batch.Reports (b : Batch ε) (guarantees : Nat) (results : List (Except ε Outcome)) :
    Prop where
  /-- The runs before the first failure are counted. -/
  tally : ∃ outcomes, results.take (firstFailure results) = outcomes.map .ok ∧
    b.statistics.Tally guarantees outcomes
  /-- No other run is. -/
  runs : b.statistics.runs.toNat = firstFailure results
  /-- The batch is over. -/
  running : b.statistics.running = false
  /-- It succeeds exactly if no item fails. -/
  failure_eq_none : b.failure = none ↔ firstFailure results = results.length
  /-- Otherwise the first failure is reported, with its position. -/
  failure_eq_some : firstFailure results < results.length →
    ∃ e, results[firstFailure results]? = some (.error e) ∧
      b.failure = some (firstFailure results, e)

/-! ### Performing the items of a batch -/

/-- The counts after an item: a failure is not counted. -/
def Statistics.recordResult (s : Statistics) : Except ε Outcome → Statistics
  | .ok o => s.record o
  | .error _ => s

namespace Monitor

/-- The result of each item, performed in the world and with the counts that the items before it
have left. -/
def results (perform : Statistics → α → ω → Performance ε × ω) :
    Statistics → List α → ω → List (Except ε Outcome)
  | _, [], _ => []
  | stats, a :: items, world =>
    (perform stats a world).1.outcome ::
      results perform (stats.recordResult (perform stats a world).1.outcome) items
        (perform stats a world).2

variable {perform : Statistics → α → ω → Performance ε × ω}

theorem length_results (stats : Statistics) (items : List α) (world : ω) :
    (results perform stats items world).length = items.length := by
  induction items generalizing stats world with
  | nil => rfl
  | cons a items ih => rw [results, List.length_cons, ih, List.length_cons]

/-- Where the result of an item depends on the item only. -/
theorem results_eq_map {result : α → Except ε Outcome}
    (h : ∀ stats a world, (perform stats a world).1.outcome = result a) (stats : Statistics)
    (items : List α) (world : ω) : results perform stats items world = items.map result := by
  induction items generalizing stats world with
  | nil => rfl
  | cons a items ih => rw [results, ih, h, List.map_cons]

/-- Whatever holds of the result of every item performed. -/
theorem of_mem_results {P : Except ε Outcome → Prop}
    (h : ∀ stats a world, P (perform stats a world).1.outcome) {stats : Statistics}
    {items : List α} {world : ω} {r : Except ε Outcome}
    (hr : r ∈ results perform stats items world) : P r := by
  induction items generalizing stats world with
  | nil => cases hr
  | cons a items ih =>
    rcases List.mem_cons.1 hr with rfl | hr
    · exact h stats a world
    · exact ih hr

theorem statistics_performAll (i : Nat) (stats : Statistics) (items : List α) (world : ω) :
    (performAll perform i stats items world).1.statistics =
      (completed (results perform stats items world)).foldl Statistics.record stats := by
  induction items generalizing i stats world with
  | nil => rfl
  | cons a items ih =>
    rcases hperform : perform stats a world with ⟨⟨e | o, log⟩, world'⟩
    · simp only [performAll, results, hperform, completed, List.foldl_nil]
    · simp only [performAll, results, hperform, completed, List.foldl_cons, ih,
        Statistics.recordResult]

theorem failure_performAll_eq_none (i : Nat) {stats : Statistics} {items : List α} {world : ω}
    (h : firstFailure (results perform stats items world) = items.length) :
    (performAll perform i stats items world).1.failure = none := by
  induction items generalizing i stats world with
  | nil => rfl
  | cons a items ih =>
    rcases hperform : perform stats a world with ⟨⟨e | o, log⟩, world'⟩
    · rw [results, hperform, firstFailure_error, List.length_cons] at h
      cases h
    · rw [results, hperform, firstFailure_ok, List.length_cons] at h
      simp only [performAll, hperform]
      exact ih (i + 1) (Nat.succ.inj h)

theorem failure_performAll_eq_some (i : Nat) {stats : Statistics} {items : List α} {world : ω}
    {e : ε}
    (h : (results perform stats items world)[firstFailure (results perform stats items world)]? =
      some (.error e)) :
    (performAll perform i stats items world).1.failure =
      some (i + firstFailure (results perform stats items world), e) := by
  induction items generalizing i stats world with
  | nil => cases h
  | cons a items ih =>
    rcases hperform : perform stats a world with ⟨⟨e' | o, log⟩, world'⟩
    · simp only [results, hperform, firstFailure_error] at h ⊢
      cases h
      simp only [performAll, hperform]
      rfl
    · simp only [results, hperform, firstFailure_ok, List.getElem?_cons_succ] at h ⊢
      simp only [performAll, hperform]
      exact (ih (i + 1) h).trans (congrArg (fun k ↦ some (k, e)) (Nat.succ_add_eq_add_succ i _))

theorem statistics_batch (m : Monitor) (word : String) (items : List α) (world : ω) :
    (m.batch word perform items world).1.statistics =
      .ofEffects false ((completed (results perform { running := true } items world)).flatMap
        Outcome.effects) := by
  have h : (performAll perform 0 m.statistics.reset items world).1.statistics = _ :=
    statistics_performAll 0 _ items world
  rw [Statistics.reset_eq, Statistics.foldl_record] at h
  exact congrArg (fun s : Statistics ↦ { s with running := false }) h

/-- **A batch reports the runs before its first failure.** -/
theorem reports_batch (m : Monitor) {guarantees : Nat} (word : String) {items : List α} (world : ω)
    (hsize : items.length < UInt32.size)
    (hperform : ∀ stats a world gs, (perform stats a world).1.outcome = .ok (.verified gs) →
      gs.length = guarantees) :
    (m.batch word perform items world).1.Reports guarantees
      (results perform { running := true } items world) := by
  obtain ⟨rs, hrs⟩ : ∃ rs, rs = results perform { running := true } items world := ⟨_, rfl⟩
  have hlength : rs.length = items.length := hrs ▸ length_results _ items world
  have hle : firstFailure rs ≤ rs.length := List.findIdx_le_length
  have hstatistics : (m.batch word perform items world).1.statistics =
      .ofEffects false ((completed rs).flatMap Outcome.effects) :=
    hrs ▸ m.statistics_batch word items world
  have hverified : ∀ gs, .verified gs ∈ completed rs → gs.length = guarantees := by
    intro gs hgs
    have hmem : Except.ok (.verified gs) ∈ rs := by
      refine List.mem_of_mem_take (i := firstFailure rs) ?_
      rw [take_firstFailure]
      exact List.mem_map_of_mem hgs
    rw [hrs] at hmem
    exact of_mem_results (P := fun r ↦ ∀ gs, r = .ok (.verified gs) → gs.length = guarantees)
      hperform hmem gs rfl
  have htally : (m.batch word perform items world).1.statistics.Tally guarantees
      (completed rs) := by
    rw [hstatistics]
    refine Statistics.tally_ofEffects false ?_ hverified
    rw [length_completed]
    omega
  have hsome : firstFailure rs < rs.length → ∃ e, rs[firstFailure rs]? = some (.error e) ∧
      (m.batch word perform items world).1.failure = some (firstFailure rs, e) := by
    intro hlt
    obtain ⟨e, he⟩ := exists_error_of_lt hlt
    refine ⟨e, he, ?_⟩
    rw [hrs] at he ⊢
    exact (failure_performAll_eq_some 0 he).trans (by rw [Nat.zero_add])
  rw [← hrs]
  refine ⟨⟨completed rs, take_firstFailure rs, htally⟩, ?_, ?_, ⟨fun hnone ↦ ?_, fun hend ↦ ?_⟩,
    hsome⟩
  · rw [htally.runs, length_completed]
  · rw [hstatistics]
    rfl
  · refine Nat.le_antisymm hle (Nat.le_of_not_lt fun hlt ↦ ?_)
    obtain ⟨e, -, he⟩ := hsome hlt
    rw [hnone] at he
    cases he
  · rw [hlength, hrs] at hend
    exact failure_performAll_eq_none 0 hend

end Monitor

/-! ### The guarantees of a run -/

theorem Oracle.eq_finalGuarantees_of_stop? {o : Oracle} {early : Bool} {gs : List Bool}
    {r : LogRecord} (h : o.stop? early = some (.verified gs, r)) : gs = o.finalGuarantees := by
  rw [stop?] at h
  split_ifs at h
  · cases h
  · cases h
    rfl

theorem Oracle.eq_finalGuarantees_of_conclude {o : Oracle} {gs : List Bool}
    (h : o.conclude.1 = .verified gs) : gs = o.finalGuarantees := by
  rw [conclude] at h
  split_ifs at h
  cases h
  rfl

theorem Judged.finalGuarantees_after (j : Judged) :
    j.after.finalGuarantees =
      j.before.guarantees.map fun p ↦ (p.advance j.state j.final).finalValue :=
  List.map_map

namespace Run

theorem exists_map_of_ofDelivered {early : Bool} {failure : Option ε} {o : Oracle} {s : State}
    {rest : List State} {gs : List Bool}
    (h : (ofDelivered early failure o s rest).outcome = .ok (.verified gs)) :
    ∃ value, gs = o.guarantees.map value := by
  fun_induction ofDelivered early failure o s rest with
  | case1 o s e => cases h
  | case2 o s _ j outcome r hstop =>
    cases h
    exact ⟨_, (Oracle.eq_finalGuarantees_of_stop? hstop).trans j.finalGuarantees_after⟩
  | case3 o s _ j hstop =>
    have hgs := Oracle.eq_finalGuarantees_of_conclude (Except.ok.inj h)
    exact ⟨_, hgs.trans j.finalGuarantees_after⟩
  | case4 o s t rest j outcome r hstop =>
    cases h
    exact ⟨_, (Oracle.eq_finalGuarantees_of_stop? hstop).trans j.finalGuarantees_after⟩
  | case5 o s t rest j hstop ih =>
    obtain ⟨value, rfl⟩ := ih h
    exact ⟨_, List.map_map⟩

/-- A run that counts has a value for each guarantee of its oracle, and gives equal guarantees equal
values. -/
theorem exists_map_of_ofSource {early : Bool} {o : Oracle} {source : Source ε} {gs : List Bool}
    (h : (ofSource early o source).outcome = .ok (.verified gs)) :
    ∃ value, gs = o.guarantees.map value := by
  obtain ⟨opening, states, failure⟩ := source
  cases states with
  | nil => cases failure <;> cases h
  | cons s rest => exact exists_map_of_ofDelivered h

theorem length_of_ofSource {early : Bool} {o : Oracle} {source : Source ε} {gs : List Bool}
    (h : (ofSource early o source).outcome = .ok (.verified gs)) :
    gs.length = o.guarantees.length := by
  obtain ⟨value, rfl⟩ := exists_map_of_ofSource h
  exact List.length_map value

end Run

/-! ### Monitoring and tracing -/

namespace Monitor

/-- Performing an item with its observer. -/
def performTraced (m : Monitor) (stats : Statistics) (item : Observer ω × (ω → Source ε))
    (world : ω) : Performance ε × ω :=
  let r := observedRun m.oracle item.1 item.2 stats world
  (⟨r.1, r.2.1⟩, r.2.2)

theorem traces_eq (m : Monitor) (items : List (Observer ω × (ω → Source ε))) (world : ω) :
    m.traces items world = m.batch "tracing" m.performTraced items world := rfl

/-- An observer cannot change the outcome of the run that it follows. -/
theorem outcome_performTraced (m : Monitor) (stats : Statistics)
    (item : Observer ω × (ω → Source ε)) (world : ω) :
    (m.performTraced stats item world).1.outcome =
      ((item.2 (item.1.init stats world).2).trace m.oracle).outcome := rfl

theorem results_performSource (m : Monitor) (stats : Statistics) (sources : List (Source ε))
    (world : ω) :
    results (fun _ source world ↦ (m.performSource source, world)) stats sources world =
      sources.map fun source ↦ (source.experiment m.oracle).outcome := by
  refine results_eq_map ?_ stats sources world
  exact fun _ _ _ ↦ rfl

theorem statistics_run (m : Monitor) (sources : List (Source ε)) :
    (m.run sources).statistics =
      .ofEffects false ((completed (sources.map fun source ↦
        (source.experiment m.oracle).outcome)).flatMap Outcome.effects) := by
  rw [run, statistics_batch, results_performSource]

theorem failure_run_eq_none {m : Monitor} {sources : List (Source ε)}
    (h : ∀ source ∈ sources, ∃ outcome, (source.experiment m.oracle).outcome = .ok outcome) :
    (m.run sources).failure = none := by
  refine failure_performAll_eq_none 0 ?_
  rw [results_performSource, ← List.length_map fun source ↦ (source.experiment m.oracle).outcome]
  refine List.findIdx_eq_length.2 fun r hr ↦ ?_
  obtain ⟨source, hsource, rfl⟩ := List.mem_map.1 hr
  obtain ⟨outcome, houtcome⟩ := h source hsource
  rw [houtcome]
  rfl

/-- The failure of a batch is that of the first source that fails. -/
theorem exists_failure_run_eq_some {m : Monitor} {sources : List (Source ε)}
    (h : ∃ source ∈ sources, ∃ e, (source.experiment m.oracle).outcome = .error e) :
    ∃ i e source, (m.run sources).failure = some (i, e) ∧ sources[i]? = some source ∧
      (source.experiment m.oracle).outcome = .error e ∧
      ∀ source' ∈ sources.take i,
        ∃ outcome, (source'.experiment m.oracle).outcome = .ok outcome := by
  have hresults := results_performSource m m.statistics.reset sources ()
  obtain ⟨rs, hrs⟩ : ∃ rs, rs = sources.map fun source ↦ (source.experiment m.oracle).outcome :=
    ⟨_, rfl⟩
  have hlt : firstFailure rs < rs.length := by
    obtain ⟨source, hsource, e, he⟩ := h
    refine List.findIdx_lt_length_of_exists ⟨.error e, ?_, rfl⟩
    rw [hrs, ← he]
    exact List.mem_map_of_mem hsource
  obtain ⟨e, he⟩ := exists_error_of_lt hlt
  have hfailure : (m.run sources).failure = some (firstFailure rs, e) := by
    rw [hrs, ← hresults] at he ⊢
    exact (failure_performAll_eq_some 0 he).trans (by rw [Nat.zero_add])
  obtain ⟨source, hsource, houtcome⟩ : ∃ source, sources[firstFailure rs]? = some source ∧
      (source.experiment m.oracle).outcome = .error e := by
    rw [← Option.map_eq_some_iff, ← List.getElem?_map, ← hrs]
    exact he
  refine ⟨firstFailure rs, e, source, hfailure, hsource, houtcome, fun source' hsource' ↦ ?_⟩
  -- what is performed before the first failure is completed
  have hmem : (source'.experiment m.oracle).outcome ∈ rs.take (firstFailure rs) := by
    rw [hrs, ← List.map_take, ← hrs]
    exact List.mem_map_of_mem hsource'
  rw [take_firstFailure] at hmem
  obtain ⟨outcome, -, houtcome'⟩ := List.mem_map.1 hmem
  exact ⟨outcome, houtcome'.symm⟩

theorem reports_run (m : Monitor) {sources : List (Source ε)}
    (hsize : sources.length < UInt32.size) :
    (m.run sources).Reports m.oracle.guarantees.length
      (sources.map fun source ↦ (source.experiment m.oracle).outcome) := by
  rw [← results_performSource m { running := true } sources ()]
  exact m.reports_batch "monitoring" () hsize fun _ _ _ _ ↦ Run.length_of_ofSource

theorem reports_traces (m : Monitor) {items : List (Observer ω × (ω → Source ε))} (world : ω)
    (hsize : items.length < UInt32.size) :
    (m.traces items world).1.Reports m.oracle.guarantees.length
      (results m.performTraced { running := true } items world) := by
  rw [traces_eq]
  refine m.reports_batch "tracing" world hsize fun stats item world gs hgs ↦ ?_
  rw [outcome_performTraced] at hgs
  exact Run.length_of_ofSource hgs

end Monitor

end TemporalMonitor
