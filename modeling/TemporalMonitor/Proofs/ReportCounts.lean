import TemporalMonitor.Command.Run
import TemporalMonitor.Proofs.Building
import TemporalMonitor.Proofs.Parallel

/-!
# What the report of a verification says

The report of a verification in which no run fails counts the runs by their outcome, and for each
name that was asked for the runs that violated the guarantee of this name (`Report.CountsRuns`).

The counts of violations are kept by position, only from the first failed run on, and are collected
by name, where a later count replaces an earlier one. This does no harm: a name stands for the same
formula at all its positions, and a run gives equal formulas equal values
(`Run.exists_map_of_ofSource`), so all counts of a name are equal.

Traces are verified in parallel or one after the other. Where no run fails, the report is the same
in whatever order the runs get on. Where some do, a verification one after the other names the first
of them; in parallel it may be any (`verify_names_unread_trace`, `Pool.exists_endsWith_iff`).
-/

namespace TemporalMonitor

/-! ### Entries by name -/

section Entries

variable {α : Type} {name : String} {a : α} {entries : List (String × α)}

/-- Each name has one entry, and the entries are in the order of the names. -/
def OrderedByName (entries : List (String × α)) : Prop :=
  (entries.map Prod.fst).Pairwise (· < ·)

theorem mem_setEntry {entry : String × α} (h : entry ∈ setEntry name a entries) :
    entry = (name, a) ∨ entry ∈ entries := by
  fun_induction setEntry name a entries with
  | case1 => exact .inl (List.mem_singleton.1 h)
  | case2 other b entries hlt => exact List.mem_cons.1 h
  | case3 b entries hlt => exact (List.mem_cons.1 h).imp_right (List.mem_cons_of_mem _)
  | case4 other b entries hlt hne ih =>
    rcases List.mem_cons.1 h with rfl | h
    · exact .inr List.mem_cons_self
    · exact (ih h).imp_right (List.mem_cons_of_mem _)

theorem mem_map_fst_setEntry {other : String} :
    other ∈ (setEntry name a entries).map Prod.fst ↔
      other = name ∨ other ∈ entries.map Prod.fst := by
  fun_induction setEntry name a entries with
  | case1 => simp
  | case2 first b entries hlt => simp
  | case3 b entries hlt => simp
  | case4 first b entries hlt hne ih =>
    simp only [List.map_cons, List.mem_cons, ih]
    exact or_left_comm

theorem orderedByName_setEntry (h : OrderedByName entries) :
    OrderedByName (setEntry name a entries) := by
  fun_induction setEntry name a entries with
  | case1 => exact List.pairwise_singleton _ _
  | case2 first b entries hlt =>
    -- what is below the first name is below all the others
    refine List.pairwise_cons.2 ⟨fun other hother ↦ ?_, h⟩
    rcases List.mem_cons.1 hother with rfl | hother
    · exact hlt
    · exact String.lt_trans hlt (List.rel_of_pairwise_cons h hother)
  | case3 b entries hlt => exact h
  | case4 first b entries hlt hne ih =>
    obtain ⟨hfirst, htail⟩ := List.pairwise_cons.1 h
    refine List.pairwise_cons.2 ⟨fun other hother ↦ ?_, ih htail⟩
    rcases mem_map_fst_setEntry.1 hother with rfl | hother
    · exact Std.lt_of_le_of_ne (String.not_lt.1 hlt) (Ne.symm hne)
    · exact hfirst other hother

end Entries

section Counts

variable {names : List String} {counts : List UInt32} {entries : List (String × UInt32)}

/-- Every entry is the count at some position of its name. -/
theorem exists_position_of_mem_countsByName {name : String} {n : UInt32}
    (h : (name, n) ∈ countsByName names counts entries) :
    (name, n) ∈ entries ∨ ∃ j : Nat, names[j]? = some name ∧ n = counts[j]?.getD 0 := by
  fun_induction countsByName names counts entries with
  | case1 counts entries => exact .inl h
  | case2 first names entries ih =>
    rcases ih h with h | ⟨j, hj, hn⟩
    · refine (mem_setEntry h).symm.imp_right fun heq ↦ ?_
      exact ⟨0, by simp_all⟩
    · exact .inr ⟨j + 1, hj, hn⟩
  | case3 first names count counts entries ih =>
    rcases ih h with h | ⟨j, hj, hn⟩
    · refine (mem_setEntry h).symm.imp_right fun heq ↦ ?_
      exact ⟨0, by simp_all⟩
    · exact .inr ⟨j + 1, hj, hn⟩

theorem mem_map_fst_countsByName {name : String} :
    name ∈ (countsByName names counts entries).map Prod.fst ↔
      name ∈ names ∨ name ∈ entries.map Prod.fst := by
  fun_induction countsByName names counts entries with
  | case1 counts entries => simp
  | case2 first names entries ih =>
    rw [ih, mem_map_fst_setEntry, List.mem_cons]
    exact or_left_comm.trans or_assoc.symm
  | case3 first names count counts entries ih =>
    rw [ih, mem_map_fst_setEntry, List.mem_cons]
    exact or_left_comm.trans or_assoc.symm

theorem orderedByName_countsByName (h : OrderedByName entries) :
    OrderedByName (countsByName names counts entries) := by
  fun_induction countsByName names counts entries with
  | case1 counts entries => exact h
  | case2 first names entries ih => exact ih (orderedByName_setEntry h)
  | case3 first names count counts entries ih => exact ih (orderedByName_setEntry h)

end Counts

/-! ### Equal guarantees -/

/-- A name stands for the same formula wherever it is listed. -/
theorem getElem?_eq_found {β : Type} {found : String → Option β} {names : List String}
    {formulas : List β} (h : List.Forall₂ (fun name f ↦ found name = some f) names formulas)
    {j : Nat} {name : String} (hj : names[j]? = some name) : formulas[j]? = found name := by
  induction h generalizing j with
  | nil => simp at hj
  | cons hf _ ih =>
    cases j with
    | zero =>
      obtain rfl : _ = name := by simpa using hj
      exact hf.symm
    | succ j => exact ih hj

namespace Outcome

/-- Values are given to guarantees by a function of the guarantee. -/
def GivesValues {β : Type} (guarantees : List β) (o : Outcome) : Prop :=
  ∀ gs, o = .verified gs → ∃ value : β → Bool, gs = guarantees.map value

theorem GivesValues.violates_eq {β : Type} {guarantees : List β} {o : Outcome}
    (ho : o.GivesValues guarantees) {j k : Nat} (h : guarantees[j]? = guarantees[k]?) :
    o.violates j = o.violates k := by
  cases o with
  | incomplete => rfl
  | verified gs =>
    obtain ⟨value, rfl⟩ := ho gs rfl
    simp [violates, h]

theorem countP_add_countP_add_count (outcomes : List Outcome) :
    outcomes.countP isSuccess + outcomes.countP isFailure + outcomes.count .incomplete =
      outcomes.length := by
  induction outcomes with
  | nil => rfl
  | cons o outcomes ih =>
    cases o with
    | incomplete => simp [isSuccess, isFailure, ← ih]; omega
    | verified gs => cases h : gs.all (·) <;> simp [isSuccess, isFailure, h, ← ih] <;> omega

end Outcome

/-! ### Reports -/

/-- The report tells exactly about some runs, for the guarantees of the given names. -/
structure Report.CountsRuns (r : Report) (monitored : List String) (outcomes : List Outcome) :
    Prop where
  /-- There is a run for each trace. -/
  traces : r.traces = outcomes.length
  /-- Every run is counted. -/
  runs : r.runs.toNat = outcomes.length
  /-- Every run is counted once. -/
  sum : r.successes.toNat + r.failures.toNat + r.incomplete.toNat = outcomes.length
  /-- Runs that count and satisfy every guarantee. -/
  successes : r.successes.toNat = outcomes.countP Outcome.isSuccess
  /-- Runs that count and violate a guarantee. -/
  failures : r.failures.toNat = outcomes.countP Outcome.isFailure
  /-- Runs that do not count. -/
  incomplete : r.incomplete.toNat = outcomes.count .incomplete
  /-- A name has at most one entry. -/
  ordered : OrderedByName r.propertyFailures
  /-- The names that have an entry are those that were asked for. -/
  names : ∀ name, name ∈ r.propertyFailures.map Prod.fst ↔ name ∈ monitored
  /-- The entry of a name is the number of runs that violate its guarantee, at whatever position. -/
  violations : ∀ name n, (name, n) ∈ r.propertyFailures → ∀ j, monitored[j]? = some name →
    n.toNat = outcomes.countP (·.violates j)
  /-- The runs that count are not too many to be counted. -/
  completed : r.completed.toNat = r.successes.toNat + r.failures.toNat
  /-- A guarantee is not violated by more runs than count. -/
  le_completed : ∀ name n, (name, n) ∈ r.propertyFailures → n.toNat ≤ r.completed.toNat
  /-- No run fails exactly if no guarantee is violated. -/
  failures_eq_zero_iff : r.failures = 0 ↔ ∀ name n, (name, n) ∈ r.propertyFailures → n = 0

namespace Report

variable {β : Type} {found : String → Option β} {monitored : List String} {guarantees : List β}
  {outcomes : List Outcome}

theorem toNat_of_mem_propertyFailures
    (hfound : List.Forall₂ (fun name f ↦ found name = some f) monitored guarantees)
    (hsize : outcomes.length < UInt32.size)
    (hvalues : ∀ o ∈ outcomes, o.GivesValues guarantees) {name : String} {n : UInt32}
    (h : (name, n) ∈ countsByName monitored
      (Statistics.ofEffects false (outcomes.flatMap Outcome.effects)).violations [])
    {j : Nat} (hj : monitored[j]? = some name) :
    n.toNat = outcomes.countP (·.violates j) := by
  obtain h | ⟨k, hk, rfl⟩ := exists_position_of_mem_countsByName h
  · cases h
  · have hsame : outcomes.countP (·.violates k) = outcomes.countP (·.violates j) := by
      refine List.countP_congr fun o ho ↦ ?_
      rw [(hvalues o ho).violates_eq
        ((getElem?_eq_found hfound hk).trans (getElem?_eq_found hfound hj).symm)]
    rw [Statistics.getD_violations_ofEffects, Outcome.countP_violates, hsame]
    exact UInt32.toNat_ofNat_of_lt' (Nat.lt_of_le_of_lt List.countP_le_length hsize)

/-- Some guarantee of a failed run was violated, and it has a name. -/
theorem exists_name_of_isFailure
    (hfound : List.Forall₂ (fun name f ↦ found name = some f) monitored guarantees) {o : Outcome}
    (ho : o.GivesValues guarantees) (h : o.isFailure = true) :
    ∃ (j : Nat) (name : String), monitored[j]? = some name ∧ o.violates j = true := by
  cases o with
  | incomplete => cases h
  | verified gs =>
    obtain ⟨j, hj, hviolates⟩ := Outcome.exists_violates_of_isFailure h
    obtain ⟨value, rfl⟩ := ho gs rfl
    rw [List.length_map, ← hfound.length_eq] at hj
    exact ⟨j, _, List.getElem?_eq_getElem hj, hviolates⟩

/-- **The report counts what happened**, where the statistics are those of the given outcomes. -/
theorem countsRuns_ofStatistics (title : String)
    (hfound : List.Forall₂ (fun name f ↦ found name = some f) monitored guarantees)
    (hsize : outcomes.length < UInt32.size)
    (hvalues : ∀ o ∈ outcomes, o.GivesValues guarantees) :
    (ofStatistics title outcomes.length monitored
      (.ofEffects false (outcomes.flatMap Outcome.effects))).CountsRuns monitored outcomes := by
  obtain ⟨r, hr⟩ : ∃ r, r = ofStatistics title outcomes.length monitored
    (.ofEffects false (outcomes.flatMap Outcome.effects)) := ⟨_, rfl⟩
  have htally : (Statistics.ofEffects false (outcomes.flatMap Outcome.effects)).Tally
      guarantees.length outcomes := by
    refine Statistics.tally_ofEffects false hsize fun gs hgs ↦ ?_
    obtain ⟨value, rfl⟩ := hvalues _ hgs gs rfl
    exact List.length_map value
  have hsum := Outcome.countP_add_countP_add_count outcomes
  have hsuccesses : r.successes.toNat = outcomes.countP Outcome.isSuccess :=
    hr ▸ htally.successes
  have hfailures : r.failures.toNat = outcomes.countP Outcome.isFailure := hr ▸ htally.failures
  have hincomplete : r.incomplete.toNat = outcomes.count .incomplete := hr ▸ htally.incomplete
  have hcompleted : r.completed.toNat = r.successes.toNat + r.failures.toNat := by
    rw [completed, UInt32.toNat_add, hsuccesses, hfailures]
    exact Nat.mod_eq_of_lt (Nat.lt_of_le_of_lt (by omega) hsize)
  have hnames (name : String) : name ∈ r.propertyFailures.map Prod.fst ↔ name ∈ monitored := by
    rw [hr]
    exact mem_map_fst_countsByName.trans (by simp)
  have hviolations : ∀ name n, (name, n) ∈ r.propertyFailures → ∀ j,
      monitored[j]? = some name → n.toNat = outcomes.countP (·.violates j) := by
    intro name n h j hj
    rw [hr] at h
    exact toNat_of_mem_propertyFailures hfound hsize hvalues h hj
  -- a guarantee is violated by failed runs only
  have hle : ∀ name n, (name, n) ∈ r.propertyFailures → n.toNat ≤ r.failures.toNat := by
    intro name n h
    have hname : name ∈ monitored := (hnames name).1 (List.mem_map_of_mem h)
    obtain ⟨j, hj⟩ := List.getElem?_of_mem hname
    rw [hviolations name n h j hj, hfailures]
    exact List.countP_mono_left fun o _ ↦ Outcome.isFailure_of_violates
  have hzero : r.failures = 0 ↔ ∀ name n, (name, n) ∈ r.propertyFailures → n = 0 := by
    refine ⟨fun hnone name n h ↦ ?_, fun hall ↦ ?_⟩
    · have hn := hle name n h
      rw [hnone] at hn
      exact UInt32.toNat_inj.1 (Nat.le_zero.1 hn)
    · rw [← UInt32.toNat_inj, hfailures]
      refine List.countP_eq_zero.2 fun o ho hfailure ↦ ?_
      obtain ⟨j, name, hj, hviolates⟩ := exists_name_of_isFailure hfound (hvalues o ho) hfailure
      obtain ⟨⟨name, n⟩, h, rfl⟩ :=
        List.mem_map.1 ((hnames name).2 (List.mem_of_getElem? hj))
      have hn := hviolations name n h j hj
      rw [hall name n h] at hn
      exact List.countP_eq_zero.1 hn.symm o ho hviolates
  rw [← hr]
  exact {
    traces := hr ▸ rfl
    runs := hr ▸ htally.runs
    sum := by rw [hsuccesses, hfailures, hincomplete, hsum]
    successes := hsuccesses
    failures := hfailures
    incomplete := hincomplete
    ordered := hr ▸ orderedByName_countsByName .nil
    names := hnames
    violations := hviolations
    completed := hcompleted
    le_completed := fun name n h ↦ by
      rw [hcompleted]
      exact Nat.le_trans (hle name n h) (Nat.le_add_left _ _)
    failures_eq_zero_iff := hzero }

end Report

/-! ### Monitoring -/

theorem completed_map_ok {ε : Type} (outcomes : List Outcome) :
    completed (outcomes.map .ok : List (Except ε Outcome)) = outcomes := by
  induction outcomes with
  | nil => rfl
  | cons o outcomes ih => rw [List.map_cons, completed, ih]

namespace Monitor

variable {ε : Type} {m : Monitor} {sources : List (Source ε)}

/-- The report on sources that are monitored without a failure. -/
theorem countsRuns_run (m : Monitor) {outcomes : List Outcome} {monitored : List String}
    {found : String → Option (Progression Nat)} (title : String)
    (hfound : List.Forall₂ (fun name p ↦ found name = some p) monitored m.oracle.guarantees)
    (hsize : sources.length < UInt32.size)
    (houtcomes : sources.map (fun source ↦ (source.experiment m.oracle).outcome) =
      outcomes.map .ok) :
    (Report.ofStatistics title sources.length monitored (m.run sources).statistics).CountsRuns
      monitored outcomes := by
  have hlength : outcomes.length = sources.length := by
    simpa using (congrArg List.length houtcomes).symm
  have hvalues : ∀ o ∈ outcomes, o.GivesValues m.oracle.guarantees := by
    rintro o ho gs rfl
    have hmem : Except.ok (.verified gs) ∈ (outcomes.map .ok : List (Except ε Outcome)) :=
      List.mem_map_of_mem ho
    rw [← houtcomes] at hmem
    obtain ⟨source, -, hsource⟩ := List.mem_map.1 hmem
    exact Run.exists_map_of_ofSource hsource
  rw [statistics_run, houtcomes, completed_map_ok, ← hlength]
  exact Report.countsRuns_ofStatistics title hfound (hlength ▸ hsize) hvalues

end Monitor

/-! ### Verification -/

theorem Execution.output_of_printed {e e' : Execution} {p : Printed}
    (h : e'.printed = e.printed ++ [p]) (elapsed : Elapsed) :
    e'.output elapsed = e.output elapsed ++ p.text elapsed := by
  simp [output, h, String.join_append]

section Verification

variable {parallel : Monitoring} {path : Path} {options : VerifyOptions} {e : Execution}
  {selection : Selection} {m : MonitoredProperties} {files : List Path} {batch : Batch TraceError}

/-- A verification whose batch ends without a failure prints its report, whether or not it shows its
progress. -/
theorem verify_of_failure_eq_none {report : Report}
    (hselection : selectionOf options.properties options.all = .ok selection)
    (hload : Properties.load e.tree path selection = .ok m)
    (hfiles : traceFiles e.tree options.traces = files)
    (hbatch : options.monitoring parallel ⟨m.oracle, {}⟩
      (files.map (TraceFile.source e.tree m.catalogue.signature)) = batch)
    (hfailure : batch.failure = none)
    (hreport : .ofStatistics (propertiesName path) files.length m.catalogue.monitored
      batch.statistics = report) :
    (verify parallel path options e).failure = e.failure ∧
      (verify parallel path options e).printed = e.printed ++ [.report report options.json] := by
  cases hprogress : options.progress.isSome <;>
    simp [verify, hselection, Execution.withProperties, Execution.logged, Execution.note, hload,
      hfiles, hbatch, hfailure, hreport, hprogress, Execution.print]

/-- A verification whose batch ends with a failure names the trace, and prints no report. -/
theorem verify_of_failure_eq_some {i : Nat} {reason : TraceError}
    (hselection : selectionOf options.properties options.all = .ok selection)
    (hload : Properties.load e.tree path selection = .ok m)
    (hfiles : traceFiles e.tree options.traces = files)
    (hbatch : options.monitoring parallel ⟨m.oracle, {}⟩
      (files.map (TraceFile.source e.tree m.catalogue.signature)) = batch)
    (hfailure : batch.failure = some (i, reason)) :
    (verify parallel path options e).failure =
        some (.verification (files.getD i "") i reason) ∧
      (verify parallel path options e).printed = e.printed := by
  cases hprogress : options.progress.isSome <;>
    simp [verify, hselection, Execution.withProperties, Execution.logged, Execution.note, hload,
      hfiles, hbatch, hfailure, hprogress, Execution.fail]

/-- However traces are monitored, it is in one of the orders of a parallel batch. -/
theorem endsWith_monitoring {monitor : Monitor} {sources : List (Source TraceError)}
    (h : options.singleThread = false →
      Pool.EndsWith monitor sources (parallel monitor sources)) :
    Pool.EndsWith monitor sources (options.monitoring parallel monitor sources) := by
  rw [VerifyOptions.monitoring]
  split_ifs with hsingle
  · exact Pool.endsWith_run monitor sources
  · exact h (Bool.eq_false_iff.2 hsingle)

/-- **A verification with traces that cannot be read names one of them**, with its position and its
failure, and prints no report. If they are read one after the other, it is the first of them; in
parallel it may be any. -/
theorem verify_names_unread_trace {sources : List (Source TraceError)}
    (hselection : selectionOf options.properties options.all = .ok selection)
    (hload : Properties.load e.tree path selection = .ok m)
    (hfiles : traceFiles e.tree options.traces = files)
    (hsources : files.map (TraceFile.source e.tree m.catalogue.signature) = sources)
    (hparallel : options.singleThread = false →
      Pool.EndsWith ⟨m.oracle, {}⟩ sources (parallel ⟨m.oracle, {}⟩ sources))
    (hfails : ∃ source ∈ sources, ∃ reason,
      (source.experiment m.oracle).outcome = .error reason) :
    ∃ i file reason, files[i]? = some file ∧
      ((TraceFile.source e.tree m.catalogue.signature file).experiment m.oracle).outcome =
        .error reason ∧
      (verify parallel path options e).failure = some (.verification file i reason) ∧
      (verify parallel path options e).printed = e.printed ∧
      (options.singleThread = true → ∀ source ∈ sources.take i,
        ∃ outcome, (source.experiment m.oracle).outcome = .ok outcome) := by
  obtain ⟨i, reason, source, hfailure, hsource, hreason⟩ :=
    (endsWith_monitoring hparallel).exists_error hfails
  obtain ⟨file, hfile, rfl⟩ : ∃ file, files[i]? = some file ∧
      TraceFile.source e.tree m.catalogue.signature file = source := by
    rw [← hsources, List.getElem?_map] at hsource
    exact Option.map_eq_some_iff.1 hsource
  obtain ⟨hend, hprinted⟩ :=
    verify_of_failure_eq_some hselection hload hfiles (by rw [hsources]) hfailure
  rw [List.getD_eq_getElem?_getD, hfile, Option.getD_some] at hend
  refine ⟨i, file, reason, hfile, hreason, hend, hprinted, fun hsingle ↦ ?_⟩
  rw [VerifyOptions.monitoring, if_pos hsingle] at hfailure
  obtain ⟨j, e', source', hfirst, -, -, hbefore⟩ :=
    Monitor.exists_failure_run_eq_some (m := ⟨m.oracle, {}⟩) hfails
  rw [hfirst] at hfailure
  cases hfailure
  exact hbefore

end Verification

namespace Properties

open Relation

/-- The guarantee of a name does not depend on its position. -/
theorem exists_found_of_load {t : FileTree} {path : Path} {selection : Selection}
    {m : MonitoredProperties} (hload : load t path selection = .ok m) :
    ∃ found : String → Option (Progression Nat),
      List.Forall₂ (fun name p ↦ found name = some p) m.catalogue.monitored
        m.oracle.guarantees := by
  obtain ⟨p, -, hbuild⟩ := load_eq_ok_iff.1 hload
  obtain ⟨-, guarantees, hguarantees, rfl⟩ := build_eq_ok_iff.1 hbuild
  refine ⟨fun name ↦ (p.indexedGuarantees.lookup name).map .residual, ?_⟩
  refine List.forall₂_map_right_iff.2 (hguarantees.imp fun name f hf ↦ ?_)
  exact congrArg (Option.map Progression.residual) hf

/-- **The report of a verification counts what happened.** For properties that load, and trace files
over which no run fails, fewer than can be counted, monitoring succeeds, and its report counts the
runs; however the names of guarantees were selected. Monitoring in parallel comes to an end, and
ends with the same report, whatever the order of its steps. It is the report that is printed, one
after the other and in parallel. -/
theorem report_counts_runs {t : FileTree} {path : Path} {selection : Selection}
    {m : MonitoredProperties} (hload : load t path selection = .ok m) (tree : FileTree)
    {files : List Path} (hsize : files.length < UInt32.size) {outcomes : List Outcome}
    (houtcomes : files.map (fun file ↦
      ((TraceFile.source tree m.catalogue.signature file).experiment m.oracle).outcome) =
        outcomes.map .ok) :
    let monitor := Monitor.mk m.oracle {}
    let sources := files.map (TraceFile.source tree m.catalogue.signature)
    let report := Report.ofStatistics (propertiesName path) files.length m.catalogue.monitored
      (monitor.run sources).statistics
    (monitor.run sources).failure = none ∧
      report.CountsRuns m.catalogue.monitored outcomes ∧
      (∃ s, ReflTransGen (Pool.Step monitor) (.start monitor sources) s ∧ s.Ended) ∧
      (∀ s, ReflTransGen (Pool.Step monitor) (.start monitor sources) s → s.Ended →
        s.Gives none ∧ (∀ failure, s.Gives failure → failure = none) ∧
        Report.ofStatistics (propertiesName path) files.length m.catalogue.monitored
          s.statistics = report) ∧
      ∀ (parallel : Monitoring) (options : VerifyOptions) (e : Execution),
        (options.singleThread = false →
          Pool.EndsWith monitor sources (parallel monitor sources)) → e.tree = tree →
        load tree path selection = .ok m →
        selectionOf options.properties options.all = .ok selection →
        traceFiles tree options.traces = files →
        (verify parallel path options e).failure = e.failure ∧
          ∀ elapsed, (verify parallel path options e).output elapsed = e.output elapsed ++
            (if options.json then (report.toJson elapsed).render else report.render elapsed) ++
              "\n" := by
  intro monitor sources report
  have hresults : sources.map (fun source ↦ (source.experiment m.oracle).outcome) =
      outcomes.map .ok := by
    rw [List.map_map]
    exact houtcomes
  have hok : ∀ source ∈ sources, ∃ outcome, (source.experiment m.oracle).outcome = .ok outcome := by
    intro source hsource
    have hmem := List.mem_map_of_mem (f := fun source ↦ (source.experiment m.oracle).outcome)
      hsource
    rw [hresults] at hmem
    obtain ⟨outcome, -, houtcome⟩ := List.mem_map.1 hmem
    exact ⟨outcome, houtcome.symm⟩
  have hlength : sources.length = files.length := List.length_map _
  have hfailure : (monitor.run sources).failure = none := Monitor.failure_run_eq_none hok
  obtain ⟨found, hfound⟩ := exists_found_of_load hload
  refine ⟨hfailure, ?_, Pool.exists_ended monitor _, fun s hs hended ↦ ?_, ?_⟩
  · have hcounts := monitor.countsRuns_run (propertiesName path) hfound (hlength ▸ hsize) hresults
    rwa [hlength] at hcounts
  · have hsound := Pool.sound_of_reachable hs
    obtain ⟨hnone, hgives⟩ := hsound.gives_none hended hok
    refine ⟨hnone, hgives, ?_⟩
    -- a report does not tell whether the batch is over
    show Report.ofStatistics _ _ _ { s.statistics with running := false } = report
    rw [hsound.statistics_eq_run hended hnone]
  · rintro parallel options e hparallel rfl hload' hselection hfiles
    obtain ⟨hstatistics, hnone⟩ := (endsWith_monitoring hparallel).eq_run hok
    obtain ⟨hend, hprinted⟩ := verify_of_failure_eq_none hselection hload' hfiles rfl hnone rfl
    refine ⟨hend, fun elapsed ↦ ?_⟩
    rw [Execution.output_of_printed hprinted, hstatistics, Printed.text, String.append_assoc]

/-- A guarantee that is selected twice and violated by one of two runs; the other run does not
count. One worker verifies the traces. -/
theorem report_counts_runs_twice :
    let properties := "[[\x7b\"var\":\"a\"\x7d]," ++
      "[[\"p\",\x7b\"always\":\x7b\"var\":\"a\"\x7d\x7d],[\"q\",\x7b\"var\":\"b\"\x7d]]]"
    let tree : FileTree := ⟨[(["p.json"], .file (Text.Utf8.ofString properties)),
      (["s.csv"], .file (Text.Utf8.ofString "a,b\n1,0\n")),
      (["t.csv"], .file (Text.Utf8.ofString "a,b\n0,1\n"))]⟩
    let m : MonitoredProperties :=
      ⟨.ofFormulas [.var 0] [.var 1, .always (.var 0), .var 1],
        ⟨["a", "b"], ["p", "q"], ["q", "p", "q"]⟩⟩
    let outcomes : List Outcome := [.verified [false, true, false], .incomplete]
    let report := Report.ofStatistics "p" 2 ["q", "p", "q"] ((Monitor.mk m.oracle {}).run
      (["s.csv", "t.csv"].map (TraceFile.source tree m.catalogue.signature))).statistics
    let options : VerifyOptions := { traces := ["s.csv", "t.csv"], properties := ["q", "p", "q"] }
    load tree "p.json" (.named ["q", "p", "q"]) = .ok m ∧
      ["s.csv", "t.csv"].map (fun file ↦
        ((TraceFile.source tree m.catalogue.signature file).experiment m.oracle).outcome) =
          outcomes.map .ok ∧
      report.CountsRuns ["q", "p", "q"] outcomes ∧
      report.propertyFailures = [("p", 0), ("q", 1)] ∧
      (verify Monitor.run "p.json" options { tree := tree }).failure = none := by
  intro properties tree m outcomes report options
  have hload : load tree "p.json" (.named ["q", "p", "q"]) = .ok m := by decide +kernel
  have houtcomes : ["s.csv", "t.csv"].map (fun file ↦
      ((TraceFile.source tree m.catalogue.signature file).experiment m.oracle).outcome) =
        outcomes.map .ok := by decide +kernel
  have hname : propertiesName "p.json" = "p" := by decide +kernel
  obtain ⟨-, hcounts, -, -, hverify⟩ := report_counts_runs hload tree (by decide) houtcomes
  rw [hname] at hcounts
  obtain ⟨hfailure, -⟩ := hverify Monitor.run options { tree := tree }
    (fun _ ↦ Pool.endsWith_run _ _) rfl hload rfl (by decide +kernel)
  exact ⟨hload, houtcomes, hcounts, by decide +kernel, hfailure⟩

end Properties

end TemporalMonitor
