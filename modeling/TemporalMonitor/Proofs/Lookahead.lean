import TemporalMonitor.Proofs.Calls
import TemporalMonitor.Proofs.RunOutcome

/-!
# How far a source is read

A state is judged only after the call behind it, so a run is always one state ahead of its oracle.
Whether it goes on is decided by the states before that call. A step **stops** the run if there is a
state behind it, and after it some assume is false or, for a run that may stop early, every property
has a verdict (`Oracle.StopsAt`). The first stop ends the run, and nothing behind the state that was
read ahead has a part in it. Without a stop everything is read; then a failure of the source aborts
the run, even if the state before it would have settled every property, because that state is never
judged (`Run.ReadsAhead`).

What one turn adds is `ReadsAhead.andThen`; the whole run follows by induction on the states
(`Run.readsAhead_ofSource`).
-/

namespace TemporalMonitor

theorem Progression.verdict?_eq_some_iff {α : Type} {p : Progression α} {b : Bool} :
    p.verdict? = some b ↔ p = .verdict b := by
  cases p <;> simp [verdict?]

namespace Oracle

/-! ### Stops -/

/-- The oracle after some states, none of them final. -/
def fed (o : Oracle) (states : List State) : Oracle :=
  states.foldl (fun o s ↦ o.update s false) o

@[simp]
theorem fed_nil (o : Oracle) : o.fed [] = o :=
  rfl

@[simp]
theorem fed_cons (o : Oracle) (s : State) (states : List State) :
    o.fed (s :: states) = (o.update s false).fed states :=
  rfl

/-- Some assume is false, or the run may stop early and every property has a verdict. -/
def Stops (early : Bool) (o : Oracle) : Prop :=
  .verdict false ∈ o.assumes ∨
    early = true ∧ ∀ p ∈ o.assumes ++ o.guarantees, ∃ b, p = .verdict b

/-- The outcome that verdicts amount to. -/
inductive Decides (o : Oracle) : Outcome → Prop
  | incomplete (h : .verdict false ∈ o.assumes) : Decides o .incomplete
  | verified {values : List Bool} (h : ∀ p ∈ o.assumes, p = .verdict true)
      (hvalues : o.guarantees = values.map .verdict) : Decides o (.verified values)

theorem violatesAssume_eq_true_iff {o : Oracle} :
    o.violatesAssume = true ↔ .verdict false ∈ o.assumes := by
  simp [violatesAssume_iff, Progression.verdict?_eq_some_iff]

theorem settled_eq_true_iff {o : Oracle} :
    o.settled = true ↔ ∀ p ∈ o.assumes ++ o.guarantees, ∃ b, p = .verdict b := by
  simp only [settled_iff, List.forall_mem_append, Option.isSome_iff_exists,
    Progression.verdict?_eq_some_iff]

theorem stop?_eq_none_iff {early : Bool} {o : Oracle} :
    o.stop? early = none ↔ ¬ o.Stops early := by
  rw [Stops, ← violatesAssume_eq_true_iff, ← settled_eq_true_iff, stop?]
  split_ifs with hviolates hsettled
  · simp [hviolates]
  · simpa [hviolates] using hsettled
  · simpa [hviolates] using hsettled

instance (early : Bool) (o : Oracle) : Decidable (o.Stops early) :=
  decidable_of_iff (o.stop? early ≠ none) (not_congr stop?_eq_none_iff |>.trans not_not)

/-- Guarantees that have verdicts have them as their final values. -/
theorem guarantees_eq_of_settled {o : Oracle}
    (h : ∀ p ∈ o.guarantees, ∃ b, p = .verdict b) :
    o.guarantees = o.finalGuarantees.map .verdict := by
  rw [finalGuarantees, List.map_map]
  refine (List.map_id _).symm.trans (List.map_congr_left fun p hp ↦ ?_)
  obtain ⟨b, rfl⟩ := h p hp
  rfl

/-- The outcome with which a run stops is the one that the verdicts amount to. -/
theorem decides_of_stop? {early : Bool} {o : Oracle} {outcome : Outcome} {r : LogRecord}
    (h : o.stop? early = some (outcome, r)) : o.Decides outcome := by
  rw [stop?] at h
  split_ifs at h with hviolates hsettled
  · obtain ⟨rfl, -⟩ := Prod.mk.inj (Option.some.inj h)
    exact .incomplete (violatesAssume_eq_true_iff.1 hviolates)
  · obtain ⟨rfl, -⟩ := Prod.mk.inj (Option.some.inj h)
    obtain ⟨hassumes, hguarantees⟩ := List.forall_mem_append.1 <|
      settled_eq_true_iff.1 (Bool.and_eq_true_iff.1 hsettled).2
    refine .verified (fun p hp ↦ ?_) (guarantees_eq_of_settled hguarantees)
    obtain ⟨b | b, rfl⟩ := hassumes p hp
    · exact absurd (violatesAssume_eq_true_iff.2 hp) hviolates
    · rfl

/-- There is a state behind step `k`, and the states up to it stop the run. -/
def StopsAt (early : Bool) (o : Oracle) (states : List State) (k : Nat) : Prop :=
  k + 1 < states.length ∧ (o.fed (states.take (k + 1))).Stops early

variable {early : Bool} {o : Oracle} {s t : State} {states rest : List State}

theorem stopsAt_zero :
    o.StopsAt early (s :: t :: rest) 0 ↔ (o.update s false).Stops early :=
  and_iff_right (by simp)

theorem stopsAt_succ {k : Nat} :
    o.StopsAt early (s :: states) (k + 1) ↔ (o.update s false).StopsAt early states k :=
  and_congr_left fun _ ↦ Nat.succ_lt_succ_iff

/-- With fewer than two states nothing can stop the run. -/
theorem not_stopsAt (h : states.length ≤ 1) (k : Nat) : ¬ o.StopsAt early states k :=
  fun hstop ↦ by have := hstop.1; omega

end Oracle

namespace Run

variable {ε : Type}

/-! ### One turn -/

/-- What a run from the oracle `o` does with a source that delivers the states and then fails, or
else ends. -/
structure ReadsAhead (early : Bool) (o : Oracle) (states : List State) (failure : Option ε)
    (r : Run ε) : Prop where
  /-- The first stop decides about the outcome, and is followed by no other call. -/
  of_stop : ∀ k, o.StopsAt early states k → (∀ i < k, ¬ o.StopsAt early states i) →
    r.calls = k + 2 ∧
      ∃ outcome, r.outcome = .ok outcome ∧ (o.fed (states.take (k + 1))).Decides outcome
  /-- Without a stop everything is read, up to the failure or the end of the trace. -/
  of_no_stop : (∀ k, ¬ o.StopsAt early states k) → r.calls = states.length + 1 ∧
    r.outcome = failure.elim (.ok (if states = [] then .incomplete else o.outcomeOn states)) .error
  /-- The states are judged in order, each after all those before it, and only the last one before
  the end of the trace is final. -/
  judged : ∀ {i j}, r.judged[i]? = some j → states[i]? = some j.state ∧
    j.before = o.fed (states.take i) ∧ (j.final = true ↔ i + 1 = states.length ∧ failure = none)
  /-- A run that ends with an outcome has judged all states but the one that was read ahead. -/
  judged_of_ok : ∀ {outcome}, r.outcome = .ok outcome → r.judged.length + 1 = r.calls
  /-- A run that is aborted has not judged the last state. -/
  judged_of_error : ∀ {e}, r.outcome = .error e →
    failure = some e ∧ r.judged.length = states.length - 1

namespace ReadsAhead

variable {early : Bool} {o : Oracle} {s t : State} {rest : List State} {failure : Option ε}
  {r : Run ε}

/-- There is no state. -/
theorem nil (opening : Log) : (ofSource early o ⟨opening, [], failure⟩).ReadsAhead early o []
    failure where
  of_stop k hk := absurd hk (Oracle.not_stopsAt (List.length_nil ▸ Nat.zero_le 1) k)
  of_no_stop _ := by cases failure <;> exact ⟨rfl, rfl⟩
  judged := by
    intro i j hj
    cases failure <;> cases hj
  judged_of_ok := by
    intro outcome h
    cases failure with
    | none => rfl
    | some e => cases h
  judged_of_error := by
    intro e h
    cases failure with
    | none => cases h
    | some e' => exact ⟨congrArg some (Except.error.inj h), rfl⟩

/-- There is one state, which is judged only if the trace ends behind it. -/
theorem singleton (opening : Log) :
    (ofSource early o ⟨opening, [s], failure⟩).ReadsAhead early o [s] failure := by
  have hno : ∀ k, ¬ o.StopsAt early [s] k := Oracle.not_stopsAt (Nat.le_refl 1)
  cases failure with
  | some e =>
    exact {
      of_stop := fun k hk ↦ absurd hk (hno k)
      of_no_stop := fun _ ↦ ⟨rfl, rfl⟩
      judged := fun hj ↦ by cases hj
      judged_of_ok := fun h ↦ by cases h
      judged_of_error := fun h ↦ ⟨congrArg some (Except.error.inj h), rfl⟩ }
  | none =>
    -- the run ends in one of two ways, with the same state judged
    have hends : ∃ outcome closing, ofSource early o ⟨opening, [s], (none : Option ε)⟩ =
        ⟨.ok outcome, 2, [⟨o, s, true⟩], closing⟩ := by
      simp only [ofSource, ofDelivered]
      split <;> exact ⟨_, _, rfl⟩
    obtain ⟨outcome, closing, hrun⟩ := hends
    have hok : (ofSource early o ⟨opening, [s], (none : Option ε)⟩).outcome =
        .ok (o.outcomeOn [s]) := outcome_ofDelivered early o s []
    rw [hrun] at hok ⊢
    exact {
      of_stop := fun k hk ↦ absurd hk (hno k)
      of_no_stop := fun _ ↦ ⟨rfl, hok⟩
      judged := by
        intro i j hj
        obtain ⟨rfl, rfl⟩ : i = 0 ∧ ⟨o, s, true⟩ = j := by
          simpa [List.getElem?_singleton] using hj
        exact ⟨rfl, rfl, iff_of_true rfl ⟨rfl, rfl⟩⟩
      judged_of_ok := fun _ ↦ rfl
      judged_of_error := fun h ↦ by cases h }

/-- The first state stops the run. -/
theorem stop {outcome : Outcome} {record : LogRecord}
    (h : (o.update s false).stop? early = some (outcome, record)) :
    ReadsAhead early o (s :: t :: rest) failure
      ⟨.ok outcome, 2, [⟨o, s, false⟩], [record]⟩ where
  of_stop k hk hfirst := by
    have hzero : o.StopsAt early (s :: t :: rest) 0 := by
      rw [Oracle.stopsAt_zero]
      by_contra hstops
      cases h.symm.trans (Oracle.stop?_eq_none_iff.2 hstops)
    obtain rfl : k = 0 := Nat.eq_zero_of_not_pos fun hpos ↦ hfirst 0 hpos hzero
    exact ⟨rfl, outcome, rfl, Oracle.decides_of_stop? h⟩
  of_no_stop hno := by
    have hnone := Oracle.stop?_eq_none_iff.2 (mt Oracle.stopsAt_zero.2 (hno 0))
    cases h.symm.trans hnone
  judged := by
    intro i j hj
    obtain ⟨rfl, rfl⟩ : i = 0 ∧ ⟨o, s, false⟩ = j := by
      simpa [List.getElem?_singleton] using hj
    exact ⟨rfl, rfl, by simp⟩
  judged_of_ok _ := rfl
  judged_of_error h := by cases h

/-- **One turn**: the first state does not stop the run, so it is judged as one that is not final,
and the run goes on from the oracle after it. -/
theorem andThen (h : ¬ (o.update s false).Stops early)
    (hr : r.ReadsAhead early (o.update s false) (t :: rest) failure) :
    (Run.andThen ⟨o, s, false⟩ r).ReadsAhead early o (s :: t :: rest) failure where
  of_stop k hk hfirst := by
    cases k with
    | zero => exact absurd (Oracle.stopsAt_zero.1 hk) h
    | succ k =>
      obtain ⟨hcalls, houtcome⟩ := hr.of_stop k (Oracle.stopsAt_succ.1 hk)
        fun i hi hstop ↦ hfirst (i + 1) (Nat.succ_lt_succ hi) (Oracle.stopsAt_succ.2 hstop)
      exact ⟨congrArg (· + 1) hcalls, houtcome⟩
  of_no_stop hno := by
    obtain ⟨hcalls, houtcome⟩ := hr.of_no_stop fun k hk ↦ hno (k + 1) (Oracle.stopsAt_succ.2 hk)
    refine ⟨congrArg (· + 1) hcalls, houtcome.trans ?_⟩
    rw [if_neg (List.cons_ne_nil _ _), if_neg (List.cons_ne_nil _ _), o.outcomeOn_cons]
    rfl
  judged := by
    intro i j hj
    cases i with
    | zero =>
      obtain rfl := Option.some.inj hj
      exact ⟨rfl, rfl, by simp⟩
    | succ i =>
      obtain ⟨hstate, hbefore, hfinal⟩ := hr.judged hj
      refine ⟨hstate, hbefore, hfinal.trans (and_congr_left fun _ ↦ ?_)⟩
      exact Nat.succ_inj.symm
  judged_of_ok houtcome := congrArg (· + 1) (hr.judged_of_ok houtcome)
  judged_of_error houtcome := by
    obtain ⟨hfailure, hlength⟩ := hr.judged_of_error houtcome
    exact ⟨hfailure, congrArg (· + 1) hlength⟩

end ReadsAhead

/-! ### The whole run -/

theorem ofSource_of_stop? {early : Bool} {o : Oracle} {opening : Log} {s t : State}
    {rest : List State} {failure : Option ε} {outcome : Outcome} {record : LogRecord}
    (h : (o.update s false).stop? early = some (outcome, record)) :
    ofSource early o ⟨opening, s :: t :: rest, failure⟩ =
      ⟨.ok outcome, 2, [⟨o, s, false⟩], [record]⟩ := by
  have hstop : (Judged.mk o s false).after.stop? early = some (outcome, record) := h
  simp only [ofSource, ofDelivered, hstop, single]

theorem ofSource_of_stop?_eq_none {early : Bool} {o : Oracle} {opening : Log} {s t : State}
    {rest : List State} {failure : Option ε} (h : (o.update s false).stop? early = none) :
    ofSource early o ⟨opening, s :: t :: rest, failure⟩ =
      andThen ⟨o, s, false⟩ (ofSource early (o.update s false) ⟨opening, t :: rest, failure⟩) := by
  have hstop : (Judged.mk o s false).after.stop? early = none := h
  simp only [ofSource, ofDelivered, hstop, andThen]
  rfl

/-- **How far a source is read**, by a run from any oracle that may stop early or not. -/
theorem readsAhead_ofSource (early : Bool) (o : Oracle) (source : Source ε) :
    (ofSource early o source).ReadsAhead early o source.states source.failure := by
  obtain ⟨opening, states, failure⟩ := source
  cases states with
  | nil => exact .nil opening
  | cons s rest =>
    induction rest generalizing o s with
    | nil => exact .singleton opening
    | cons t rest ih =>
      rcases hstop : (o.update s false).stop? early with _ | ⟨outcome, record⟩
      · rw [ofSource_of_stop?_eq_none hstop]
        exact .andThen (Oracle.stop?_eq_none_iff.1 hstop) (ih (o.update s false) t)
      · rw [ofSource_of_stop? hstop]
        exact .stop hstop

end Run

/-- **When a failing source aborts a run, and how far it is read.** Calling a supplier that delivers
the states of a source, and then ends or fails like it, gives exactly one run, in both modes: the
run that the source gives. It reads up to the state behind the first stop, or else everything. -/
theorem Call.readsAhead_of_delivers {σ ε : Type} {call : Call σ ε} {x : σ} {source : Source ε}
    (h : call.Delivers source.failure x source.states) (early : Bool) (o : Oracle) :
    let r := if early then source.experiment o else source.trace o
    (∀ r', call.Performs early o x r' ↔ r' = r) ∧
      r.ReadsAhead early o source.states source.failure := by
  have hmode : (if early then source.experiment o else source.trace o) =
      Run.ofSource early o source := by
    cases early <;> rfl
  rw [hmode]
  exact ⟨fun _ ↦ performs_iff h, Run.readsAhead_ofSource early o source⟩

/-- A trace file whose third row cannot be read. The second state would settle the only property,
but the run is aborted before it is judged. -/
theorem Call.readsAhead_of_delivers_aborted :
    let tree : FileTree := ⟨[(["t.csv"], .file (Text.Utf8.ofString "a,b\n1,0\n,1\n0,x\n"))]⟩
    let source := TraceFile.source tree ["a", "b"] "t.csv"
    let o : Oracle := .ofFormulas [] [.eventually (.var 1)]
    (TraceFile.call tree).Delivers source.failure ⟨"t.csv", ["a", "b"], none⟩ source.states ∧
      source.states = [[some true, some false], [none, some true]] ∧
      (o.fed source.states).Stops true ∧
      ∃ r, (TraceFile.call tree).Performs true o ⟨"t.csv", ["a", "b"], none⟩ r ∧
        r.outcome = .error (.invalidValue 2 "b" "x") ∧ r.calls = 3 := by
  intro tree source o
  have hdelivers := TraceFile.delivers_source tree ["a", "b"] "t.csv"
  have hstates : (TraceFile.source tree ["a", "b"] "t.csv").states =
      [[some true, some false], [none, some true]] := by decide +kernel
  have hfailure : (TraceFile.source tree ["a", "b"] "t.csv").failure =
      some (.invalidValue 2 "b" "x") := by decide +kernel
  obtain ⟨hperforms, hreads⟩ := readsAhead_of_delivers hdelivers true o
  have hno : ∀ k, ¬ o.StopsAt true (TraceFile.source tree ["a", "b"] "t.csv").states k := by
    rw [hstates]
    rintro k ⟨hk, hstops⟩
    obtain rfl : k = 0 := Nat.lt_one_iff.1 (Nat.lt_of_succ_lt_succ hk)
    exact absurd hstops (by decide)
  obtain ⟨hcalls, houtcome⟩ := hreads.of_no_stop hno
  rw [hstates] at hcalls
  rw [hfailure] at houtcome
  have hstops : (o.fed (TraceFile.source tree ["a", "b"] "t.csv").states).Stops true := by
    rw [hstates]
    decide
  exact ⟨hdelivers, hstates, hstops, _, (hperforms _).2 rfl, houtcome, hcalls⟩

end TemporalMonitor
