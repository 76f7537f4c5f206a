import TemporalMonitor.Proofs.Lookahead

/-!
# What an observer is told

An observer of a run to the end of the trace is told that the run is about to start, then of one
state after the other, and at last of the outcome. A state is announced with the number of its step
and with the oracle right after it (`Run.Notice`). This module says which states are announced, and
when the outcome is (`Run.KeepsProtocol`).

The run is the one of `Run.ReadsAhead`. Since it cannot stop early, a step stops it exactly if an
assume is false behind it, so the announcements reach up to the first such state. The exception is
a failure of the source: the state before it was read but is not judged, so it is not announced, and
there is no outcome to tell.

At last the numbers of the steps are bounded (`TraceReader.step_lt_length`).
-/

namespace TemporalMonitor

variable {ε ω : Type}

namespace Oracle

theorem step_fed (o : Oracle) (states : List State) :
    (o.fed states).step = o.step + states.length := by
  induction states generalizing o with
  | nil => rfl
  | cons s states ih =>
    rw [fed_cons, ih, List.length_cons, Nat.add_comm states.length, ← Nat.add_assoc]
    rfl

theorem fed_take_succ (o : Oracle) {states : List State} {k : Nat} {s : State}
    (h : states[k]? = some s) :
    o.fed (states.take (k + 1)) = (o.fed (states.take k)).update s false := by
  rw [List.take_add_one, h, fed, List.foldl_append]
  rfl

end Oracle

namespace Source

/-- The state at a position is the last one, and the trace ends behind it. -/
def isFinal (source : Source ε) (i : Nat) : Bool :=
  i + 1 == source.states.length && source.failure.isNone

/-- The oracle after the states up to the state `s` at position `i`: none of those before is final,
and `s` may be. -/
def oracleAfter (source : Source ε) (o : Oracle) (i : Nat) (s : State) : Oracle :=
  (o.fed (source.states.take i)).update s (source.isFinal i)

/-- After the state at position `k` some assume is false. -/
def ViolatesAt (source : Source ε) (o : Oracle) (k : Nat) : Prop :=
  ∃ s, source.states[k]? = some s ∧ .verdict false ∈ (source.oracleAfter o k s).assumes

theorem isFinal_of_lt {source : Source ε} {i : Nat} (h : i + 1 < source.states.length) :
    source.isFinal i = false := by
  rw [isFinal, beq_false_of_ne (Nat.ne_of_lt h), Bool.false_and]

/-- For a run to the end of the trace, a step stops it if there is a state behind it and an assume
is false after it. -/
theorem stopsAt_iff {source : Source ε} {o : Oracle} {k : Nat} :
    o.StopsAt false source.states k ↔ k + 1 < source.states.length ∧ source.ViolatesAt o k := by
  refine and_congr_right fun hk ↦ ?_
  have hstate : source.states[k]? = some (source.states[k]) := List.getElem?_eq_getElem _
  rw [o.fed_take_succ hstate]
  constructor
  · rintro (hfalse | ⟨hearly, -⟩)
    · exact ⟨_, hstate, by rwa [oracleAfter, isFinal_of_lt hk]⟩
    · cases hearly
  · rintro ⟨s, hs, hfalse⟩
    obtain rfl := Option.some.inj (hstate.symm.trans hs)
    rw [oracleAfter, isFinal_of_lt hk] at hfalse
    exact Or.inl hfalse

end Source

namespace Run

/-! ### Notices -/

/-- What an event tells an observer. -/
inductive Notice where
  /-- The run is about to start. -/
  | init
  /-- A state was judged: the number of the step, the state, and the oracle afterwards. -/
  | step (step : Nat) (s : State) (o : Oracle)
  /-- The run has ended with an outcome. -/
  | finalize (outcome : Outcome)
  deriving DecidableEq, Repr

/-- What an observer learns from an event. -/
def Event.notice : Event → Notice
  | .init => .init
  | .step j => .step j.before.step j.state j.after
  | .finalize outcome => .finalize outcome

/-- The notices of a run over a source, in order. -/
structure KeepsProtocol (source : Source ε) (o : Oracle) (r : Run ε) : Prop where
  /-- One notice at the start, one for each state that is judged, in order, and one for the outcome
  if there is an outcome. -/
  notices : r.events.map Event.notice =
    .init :: (source.states.take r.judged.length).mapIdx
        (fun i s ↦ .step (o.step + i) s (source.oracleAfter o i s)) ++
      r.outcome.toOption.toList.map .finalize
  /-- The states that are judged are those up to the first one after which an assume is false,
  unless the call behind it fails. -/
  of_violation : ∀ k, source.ViolatesAt o k → (∀ i < k, ¬ source.ViolatesAt o i) →
    k + 1 < source.states.length ∨ source.failure = none →
      r.judged.length = k + 1 ∧ ∃ outcome, r.outcome = .ok outcome
  /-- They are all states, if no assume becomes false before the end of the trace. -/
  of_no_violation : (∀ k, ¬ source.ViolatesAt o k) → source.failure = none →
    r.judged.length = source.states.length ∧ ∃ outcome, r.outcome = .ok outcome
  /-- If a call fails, then the state before it is not judged, and there is no outcome. -/
  of_failure : ∀ e, source.failure = some e →
    (∀ k, k + 1 < source.states.length → ¬ source.ViolatesAt o k) →
      r.judged.length = source.states.length - 1 ∧ r.outcome = .error e
  /-- An empty trace is incomplete. -/
  of_empty : source.states = [] → source.failure = none →
    r.events.map Event.notice = [.init, .finalize .incomplete]

namespace ReadsAhead

variable {source : Source ε} {o : Oracle} {r : Run ε}

/-- The notice of a state that was judged. -/
theorem notice_of_judged {early : Bool}
    (h : r.ReadsAhead early o source.states source.failure) {i : Nat} {j : Judged}
    (hj : r.judged[i]? = some j) :
    (Event.step j).notice = .step (o.step + i) j.state (source.oracleAfter o i j.state) := by
  obtain ⟨hstate, hbefore, hfinal⟩ := h.judged hj
  have hstep : j.before.step = o.step + i := by
    have hlt : i < source.states.length := (List.getElem?_eq_some_iff.1 hstate).1
    rw [hbefore, Oracle.step_fed, List.length_take, Nat.min_eq_left (Nat.le_of_lt hlt)]
  have hflag : j.final = source.isFinal i := by
    rw [Bool.eq_iff_iff, hfinal, Source.isFinal, Bool.and_eq_true, beq_iff_eq,
      Option.isNone_iff_eq_none]
  rw [Event.notice, hstep, Judged.after, hbefore, hflag, Source.oracleAfter]

theorem map_notice_judged {early : Bool}
    (h : r.ReadsAhead early o source.states source.failure) :
    r.judged.map (fun j ↦ (Event.step j).notice) =
      (source.states.take r.judged.length).mapIdx
        fun i s ↦ .step (o.step + i) s (source.oracleAfter o i s) := by
  refine List.ext_getElem? fun i ↦ ?_
  rw [List.getElem?_map, List.getElem?_mapIdx, List.getElem?_take]
  cases hj : r.judged[i]? with
  | none =>
    rw [if_neg (Nat.not_lt.2 (List.getElem?_eq_none_iff.1 hj)), Option.map_none, Option.map_none]
  | some j =>
    rw [if_pos (List.getElem?_eq_some_iff.1 hj).1, (h.judged hj).1, Option.map_some,
      Option.map_some, h.notice_of_judged hj]

/-- **A run to the end of the trace keeps the protocol.** -/
theorem keepsProtocol (h : r.ReadsAhead false o source.states source.failure) :
    r.KeepsProtocol source o := by
  have hnotices : r.events.map Event.notice =
      .init :: (source.states.take r.judged.length).mapIdx
          (fun i s ↦ .step (o.step + i) s (source.oracleAfter o i s)) ++
        r.outcome.toOption.toList.map .finalize := by
    rw [← h.map_notice_judged, events, List.map_append, List.map_cons, List.map_map]
    cases r.outcome <;> rfl
  -- a run without a stop that meets the end of the trace has judged everything
  have hends : (∀ k, ¬ o.StopsAt false source.states k) → source.failure = none →
      r.judged.length = source.states.length ∧ ∃ outcome, r.outcome = .ok outcome := by
    intro hno hfailure
    obtain ⟨hcalls, houtcome⟩ := h.of_no_stop hno
    rw [hfailure, Option.elim_none] at houtcome
    exact ⟨Nat.succ.inj ((h.judged_of_ok houtcome).trans hcalls), _, houtcome⟩
  refine ⟨hnotices, ?_, ?_, ?_, ?_⟩
  · intro k hk hfirst hread
    by_cases hlt : k + 1 < source.states.length
    · obtain ⟨hcalls, outcome, houtcome, -⟩ := h.of_stop k (Source.stopsAt_iff.2 ⟨hlt, hk⟩)
        fun i hi hstop ↦ hfirst i hi (Source.stopsAt_iff.1 hstop).2
      exact ⟨Nat.succ.inj ((h.judged_of_ok houtcome).trans hcalls), outcome, houtcome⟩
    · obtain ⟨s, hs, -⟩ := hk
      have hlast : k + 1 = source.states.length := by
        have := (List.getElem?_eq_some_iff.1 hs).1
        omega
      rw [hlast]
      refine hends (fun i hstop ↦ ?_) (hread.resolve_left hlt)
      obtain ⟨hi, hviolates⟩ := Source.stopsAt_iff.1 hstop
      exact hfirst i (by omega) hviolates
  · exact fun hno ↦ hends fun k hstop ↦ hno k (Source.stopsAt_iff.1 hstop).2
  · intro e hfailure hno
    obtain ⟨-, houtcome⟩ := h.of_no_stop fun k hstop ↦
      hno k (Source.stopsAt_iff.1 hstop).1 (Source.stopsAt_iff.1 hstop).2
    rw [hfailure, Option.elim_some] at houtcome
    exact ⟨(h.judged_of_error houtcome).2, houtcome⟩
  · intro hstates hfailure
    obtain ⟨-, houtcome⟩ := h.of_no_stop
      (Oracle.not_stopsAt (by rw [hstates]; exact Nat.zero_le 1))
    rw [hfailure, Option.elim_none, if_pos hstates] at houtcome
    rw [hnotices, houtcome, hstates, List.take_nil]
    rfl

end ReadsAhead

end Run

/-! ### Observers -/

namespace Observer

/-- What an event does to the world of an observer. -/
def react (observer : Observer ω) (stats : Statistics) (world : ω) : Run.Event → ω
  | .init => (observer.init stats world).2
  | .step j => (observer.step j world).2
  | .finalize outcome => (observer.finalize outcome world).2

/-- The observer that writes down what it is told. -/
def recorder : Observer (List Run.Notice) where
  init _ notices := ([], notices ++ [.init])
  step j notices := ([], notices ++ [(Run.Event.step j).notice])
  finalize outcome notices := ([], notices ++ [.finalize outcome])

theorem foldl_react_recorder (stats : Statistics) (events : List Run.Event)
    (notices : List Run.Notice) :
    events.foldl (recorder.react stats) notices = notices ++ events.map Run.Event.notice := by
  induction events generalizing notices with
  | nil => exact (List.append_nil notices).symm
  | cons e events ih =>
    have hreact : recorder.react stats notices e = notices ++ [e.notice] := by cases e <;> rfl
    rw [List.foldl_cons, hreact, ih, List.append_assoc, List.singleton_append, List.map_cons]

theorem world_tellSteps (observer : Observer ω) (stats : Statistics) (judged : List Judged)
    (world : ω) :
    (observer.tellSteps judged world).2 =
      (judged.map Run.Event.step).foldl (observer.react stats) world := by
  induction judged generalizing world with
  | nil => rfl
  | cons j judged ih => exact ih (observer.step j world).2

end Observer

/-- **An observer is told the events of the run**, in this order and no others; when the source has
failed, it is left to itself. -/
theorem world_observedRun (o : Oracle) (observer : Observer ω) (source : ω → Source ε)
    (stats : Statistics) (world : ω) :
    let r := (source (observer.init stats world).2).trace o
    let told := r.events.foldl (observer.react stats) world
    (observedRun o observer source stats world).2.2 =
      if r.outcome.toOption.isSome then told else observer.abandon told := by
  intro r told
  have htold : ∀ last : List Run.Event,
      (.init :: r.judged.map Run.Event.step ++ last).foldl (observer.react stats) world =
        last.foldl (observer.react stats)
          (observer.tellSteps r.judged (observer.init stats world).2).2 := by
    intro last
    rw [List.cons_append, List.foldl_cons, List.foldl_append, ← observer.world_tellSteps stats]
    rfl
  show (observer.tellEnd r.outcome
    (observer.tellSteps r.judged (observer.init stats world).2).2).2 = _
  cases houtcome : r.outcome with
  | ok outcome =>
    have hevents : r.events = .init :: r.judged.map Run.Event.step ++ [.finalize outcome] := by
      rw [Run.events, houtcome]
    simp only [told, hevents, htold]
    rfl
  | error e =>
    have hevents : r.events = .init :: r.judged.map Run.Event.step ++ [] := by
      rw [Run.events, houtcome]
    simp only [told, hevents, htold]
    rfl

/-- What the recorder writes down, whether or not the source fails. -/
theorem world_observedRun_recorder (o : Oracle) (source : Source ε) (stats : Statistics) :
    (observedRun o .recorder (fun _ ↦ source) stats []).2.2 =
      (source.trace o).events.map Run.Event.notice := by
  refine (world_observedRun o .recorder (fun _ ↦ source) stats []).trans ?_
  -- the recorder does nothing when it is left to itself
  exact (ite_self _).trans (Observer.foldl_react_recorder stats _ [])

/-- **The protocol of observers.** Calling a supplier that delivers the states of a source, and then
ends or fails like it, gives exactly one run to the end of the trace, and its notices are those of
the protocol. Every observer is told its events in this order, before it is left to itself if the
source has failed; the recorder shows what they amount to. -/
theorem Call.keepsProtocol_of_delivers {σ : Type} {call : Call σ ε} {x : σ} {source : Source ε}
    (h : call.Delivers source.failure x source.states) (o : Oracle) :
    (∀ r, call.Performs false o x r ↔ r = source.trace o) ∧
      (source.trace o).KeepsProtocol source o ∧
      (∀ stats, (observedRun o .recorder (fun _ ↦ source) stats []).2.2 =
        (source.trace o).events.map Run.Event.notice) ∧
      ∀ {ω : Type} (observer : Observer ω) (sourceIn : ω → Source ε) (stats : Statistics)
        (world : ω), sourceIn (observer.init stats world).2 = source →
          let told := (source.trace o).events.foldl (observer.react stats) world
          (observedRun o observer sourceIn stats world).1 = (source.trace o).outcome ∧
            (observedRun o observer sourceIn stats world).2.2 =
              if (source.trace o).outcome.toOption.isSome then told else observer.abandon told := by
  refine ⟨fun r ↦ performs_iff h, (Run.readsAhead_ofSource false o source).keepsProtocol,
    world_observedRun_recorder o source, ?_⟩
  rintro ω observer sourceIn stats world rfl
  exact ⟨rfl, world_observedRun o observer sourceIn stats world⟩

/-- A source that fails behind its second state, which would violate the assume. The state is not
announced, and neither is an outcome. -/
theorem Call.keepsProtocol_of_delivers_aborted :
    let source : Source String := ⟨[], [[some true], [some false]], some "broken"⟩
    let o : Oracle := ⟨[.residual (.always (.var 0))], [.residual (.eventually (.var 0))], 5⟩
    Source.call.Delivers source.failure source source.states ∧
      .verdict false ∈ (o.fed source.states).assumes ∧
      (observedRun o .recorder (fun _ ↦ source) {} []).2.2 =
        [.init, .step 5 [some true] ⟨[.residual (.always (.var 0))], [.verdict true], 6⟩] := by
  intro source o
  obtain ⟨-, -, hrecorder, -⟩ := keepsProtocol_of_delivers source.delivers o
  exact ⟨source.delivers, by decide, (hrecorder {}).trans (by decide)⟩

/-! ### How far steps are counted -/

/-- Each record but the last takes a byte that ends it. -/
theorem Csv.length_scan_le (ended : Bool) (start here : Position) (s : Scanner)
    (bytes : List UInt8) :
    (scan ended start here s bytes).length ≤ bytes.length + ended.toNat := by
  fun_induction scan ended start here s bytes with
  | case1 start here s hended =>
    cases s.finish? <;> simp [hended]
  | case2 start here s hended => exact Nat.zero_le _
  | case3 start here s b bytes s' hstep ih =>
    rw [List.length_cons]
    omega
  | case4 start here s b bytes s' fields hstep next ih =>
    rw [List.length_cons, List.length_cons]
    omega

theorem Csv.length_rawRecords_le (s : ByteStream) :
    (rawRecords s).length ≤ s.bytes.length + s.fault.isNone.toNat := by
  rw [rawRecords]
  split_ifs
  · refine (length_scan_le _ _ _ _ _).trans ?_
    rw [List.length_drop]
    omega
  · exact length_scan_le _ _ _ _ _

/-- A sheet has at most as many rows as its stream has bytes. -/
theorem Csv.Sheet.length_rows_le {s : ByteStream} {sheet : Sheet} (h : ofStream s = .ok sheet) :
    sheet.rows.length ≤ s.bytes.length := by
  have hle := length_rawRecords_le s
  rw [ofStream] at h
  cases hrecords : rawRecords s with
  | nil =>
    cases hfault : s.fault with
    | none =>
      rw [hrecords, hfault] at h
      cases h
      exact Nat.zero_le _
    | some e =>
      rw [hrecords, hfault] at h
      cases h
  | cons first rest =>
    rw [hrecords, List.length_cons] at hle
    cases hnames : first.names with
    | error e =>
      simp only [hrecords, hnames] at h
      cases h
    | ok header =>
      simp only [hrecords, hnames] at h
      cases h
      -- a fault stands in the place of the record that it interrupts
      cases hfault : s.fault <;> simp [hfault] at hle ⊢ <;> omega

namespace TraceReader

variable {width step : Nat} {columns : List Column} {rows : List (Except Csv.Error (List String))}

theorem length_deliver_le : (deliver width columns step rows).1.length ≤ rows.length := by
  fun_induction deliver width columns step rows with
  | case1 | case2 | case3 => exact Nat.zero_le _
  | case4 step cells rows s hfill states failure hrest ih =>
    rw [hrest] at ih
    exact Nat.succ_le_succ ih

/-- An invalid cell is reported with a step that counts rows before its own. -/
theorem step_of_deliver {k : Nat} {name value : String}
    (h : (deliver width columns step rows).2 = some (.invalidValue k name value)) :
    k < step + rows.length := by
  fun_induction deliver width columns step rows with
  | case1 | case2 => cases h
  | case3 step cells rows s name value hfill =>
    cases h
    exact Nat.lt_add_of_pos_right (Nat.zero_lt_succ _)
  | case4 step cells rows s hfill states failure hrest ih =>
    rw [hrest] at ih
    have hlt := ih h
    rw [List.length_cons]
    omega

/-- **The steps of a run over a stream are fewer than its bytes**, and so are those that its
failures tell. -/
theorem step_lt_length {signature : Signature} {s : ByteStream} {r : TraceReader} {log : Log}
    (h : ofStream signature s = (.ok r, log)) (early : Bool) (o : Oracle) :
    (∀ j ∈ (Run.ofSource early o (r.source log)).judged,
        j.before.step < o.step + s.bytes.length) ∧
      ∀ k name value, (r.source log).failure = some (.invalidValue k name value) →
        k < s.bytes.length := by
  obtain ⟨sheet, hsheet, rfl⟩ : ∃ sheet, Csv.Sheet.ofStream s = .ok sheet ∧
      ofSheet signature sheet = r := by
    rw [ofStream] at h
    cases hsheet : Csv.Sheet.ofStream s with
    | error e =>
      rw [hsheet] at h
      cases h
    | ok sheet =>
      rw [hsheet] at h
      cases h
      exact ⟨sheet, rfl, rfl⟩
  have hrows := Csv.Sheet.length_rows_le hsheet
  refine ⟨fun j hj ↦ ?_, fun k name value hfailure ↦ ?_⟩
  · obtain ⟨i, hi⟩ := List.getElem?_of_mem hj
    have hahead := Run.readsAhead_ofSource early o ((ofSheet signature sheet).source log)
    obtain ⟨hstate, hbefore, -⟩ := hahead.judged hi
    have hlt := (List.getElem?_eq_some_iff.1 hstate).1
    rw [hbefore, Oracle.step_fed, List.length_take, Nat.min_eq_left (Nat.le_of_lt hlt)]
    exact Nat.add_lt_add_left (Nat.lt_of_lt_of_le hlt (length_deliver_le.trans hrows)) o.step
  · have hlt : k < 0 + sheet.rows.length := step_of_deliver hfailure
    rw [Nat.zero_add] at hlt
    exact Nat.lt_of_lt_of_le hlt hrows

end TraceReader

end TemporalMonitor
