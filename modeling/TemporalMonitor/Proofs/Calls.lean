import TemporalMonitor.Run
import TemporalMonitor.Trace.File

/-!
# Runs call by call

A run calls a supplier for one state after the other. Each call is given a buffer: it writes a state
there and says so, or it reports the end of the trace, or it fails; in the last two cases the buffer
may be left in any condition. The run has two buffers. One holds the state that is judged next, the
other one takes the state after it, and they change places after every turn (`Loop.turn`).

`Run.ofSource` says at once what comes of all the states that a source has to offer. Both are the
same run, whatever is called and whatever the buffers hold, as long as the calls deliver these
states and then end or fail like the source (`Call.performs_iff`). In particular `Run.calls` counts
calls, and `Run.judged` lists what was in the first buffer when the oracle was updated.

Sources deliver their own states (`Source.delivers`), and a trace file that is read row by row
delivers the states of its source (`TraceFile.delivers_source`).
-/

namespace TemporalMonitor

variable {σ ε : Type}

/-- How a supplier in `σ` is called. From the supplier and a buffer: whether a state was written, or
a failure; the buffer and the supplier afterwards. -/
abbrev Call (σ ε : Type) := σ → State → Except ε Bool × State × σ

/-- Calls deliver the states, one after the other, whatever the buffers hold, and then fail, or else
report the end of the trace. -/
def Call.Delivers (call : Call σ ε) (failure : Option ε) : σ → List State → Prop
  | x, [] => ∀ buffer, (call x buffer).1 = failure.elim (.ok false) .error
  | x, s :: states => ∀ buffer, (call x buffer).1 = .ok true ∧ (call x buffer).2.1 = s ∧
      Call.Delivers call failure (call x buffer).2.2 states

/-- Suppliers that answer the next call alike deliver the same. -/
theorem Call.Delivers.congr {call : Call σ ε} {failure : Option ε} {x y : σ} {states : List State}
    (h : ∀ buffer, call x buffer = call y buffer) (hy : call.Delivers failure y states) :
    call.Delivers failure x states := by
  cases states with
  | nil => exact fun buffer ↦ h buffer ▸ hy buffer
  | cons s states => exact fun buffer ↦ h buffer ▸ hy buffer

/-! ### The loop -/

/-- A run in front of a call, when there is a state to be judged. -/
structure Loop (σ : Type) where
  /-- What is called. -/
  supplier : σ
  /-- The oracle before the state. -/
  oracle : Oracle
  /-- The buffer that holds the state. -/
  state : State
  /-- The buffer for the state after it. -/
  spare : State
  /-- How many calls were made. -/
  calls : Nat
  /-- The states judged, in order. -/
  judged : List Judged

namespace Loop

/-- One turn: the next call is made, then the state is judged, and unless the run ends the buffers
change places. -/
def turn (call : Call σ ε) (early : Bool) (l : Loop σ) : Loop σ ⊕ Run ε :=
  match (call l.supplier l.spare).1 with
  | .error e => .inr ⟨.error e, l.calls + 1, l.judged, []⟩
  | .ok more =>
    let j : Judged := ⟨l.oracle, l.state, !more⟩
    match j.after.stop? early with
    | some (outcome, r) => .inr ⟨.ok outcome, l.calls + 1, l.judged ++ [j], [r]⟩
    | none =>
      if more then
        .inl ⟨(call l.supplier l.spare).2.2, j.after, (call l.supplier l.spare).2.1, l.state,
          l.calls + 1, l.judged ++ [j]⟩
      else .inr ⟨.ok j.after.conclude.1, l.calls + 1, l.judged ++ [j], j.after.conclude.2⟩

/-- The loop ends with a run, after finitely many turns. -/
inductive Ends (call : Call σ ε) (early : Bool) : Loop σ → Run ε → Prop
  | last {l : Loop σ} {r : Run ε} (h : l.turn call early = .inr r) : Ends call early l r
  | next {l l' : Loop σ} {r : Run ε} (h : l.turn call early = .inl l') (h' : Ends call early l' r) :
      Ends call early l r

/-- The run that goes on from the loop with what `r` does. -/
def followedBy (l : Loop σ) (r : Run ε) : Run ε :=
  { r with calls := l.calls + r.calls, judged := l.judged ++ r.judged }

variable {call : Call σ ε} {early : Bool} {l l' : Loop σ} {r r' : Run ε}

theorem ends_iff_of_inr (h : l.turn call early = .inr r) : l.Ends call early r' ↔ r' = r := by
  refine ⟨fun hends ↦ ?_, fun heq ↦ .last (heq ▸ h)⟩
  cases hends with
  | last hlast => exact Sum.inr.inj (hlast.symm.trans h)
  | next hnext => cases hnext.symm.trans h

theorem ends_iff_of_inl (h : l.turn call early = .inl l') :
    l.Ends call early r ↔ l'.Ends call early r := by
  refine ⟨fun hends ↦ ?_, fun hends ↦ .next h hends⟩
  cases hends with
  | last hlast => cases hlast.symm.trans h
  | next hnext hends =>
    obtain rfl := Sum.inl.inj (hnext.symm.trans h)
    exact hends

/-- **The loop in closed form.** The invariant is what the supplier has left to deliver. -/
theorem ends_iff {failure : Option ε} {rest : List State}
    (h : call.Delivers failure l.supplier rest) :
    l.Ends call early r ↔
      r = l.followedBy (Run.ofDelivered early failure l.oracle l.state rest) := by
  induction rest generalizing l with
  | nil =>
    have hcall := h l.spare
    cases failure with
    | some e =>
      refine ends_iff_of_inr ?_
      simp only [turn, hcall, Option.elim, followedBy, Run.ofDelivered, List.append_nil]
    | none =>
      refine ends_iff_of_inr ?_
      simp only [turn, hcall, Option.elim, Run.ofDelivered, Bool.not_false]
      cases (Judged.mk l.oracle l.state true).after.stop? early <;> rfl
  | cons t rest ih =>
    obtain ⟨hmore, hbuffer, hrest⟩ := h l.spare
    rcases hstop : (Judged.mk l.oracle l.state false).after.stop? early with _ | ⟨outcome, record⟩
    · -- the state just read is judged next, out of the buffer it was read into
      have hturn : l.turn call early = .inl ⟨(call l.supplier l.spare).2.2,
          (Judged.mk l.oracle l.state false).after, (call l.supplier l.spare).2.1, l.state,
          l.calls + 1, l.judged ++ [⟨l.oracle, l.state, false⟩]⟩ := by
        simp only [turn, hmore, Bool.not_true, hstop, if_true]
      rw [ends_iff_of_inl hturn, ih hrest]
      simp only [Run.ofDelivered, hstop, hbuffer, followedBy, Run.andThen, List.append_assoc,
        List.singleton_append, Nat.add_assoc, Nat.add_comm 1]
    · refine ends_iff_of_inr ?_
      simp only [turn, hmore, Bool.not_true, hstop, Run.ofDelivered, followedBy, Run.single]

end Loop

/-! ### Whole runs -/

namespace Call

/-- The runs that calling a supplier gives: the first call tells whether there is a state at all. -/
inductive Performs (call : Call σ ε) (early : Bool) (o : Oracle) (x : σ) : Run ε → Prop
  | failed {e : ε} (h : (call x []).1 = .error e) : Performs call early o x ⟨.error e, 1, [], []⟩
  | empty (h : (call x []).1 = .ok false) :
      Performs call early o x ⟨.ok .incomplete, 1, [], [.plain .trace "empty trace"]⟩
  | loop {r : Run ε} (h : (call x []).1 = .ok true)
      (hends : Loop.Ends call early ⟨(call x []).2.2, o, (call x []).2.1, [], 1, []⟩ r) :
      Performs call early o x r

variable {call : Call σ ε} {early : Bool} {o : Oracle} {x : σ} {r : Run ε}

theorem performs_iff_of_error {e : ε} (h : (call x []).1 = .error e) :
    call.Performs early o x r ↔ r = ⟨.error e, 1, [], []⟩ := by
  refine ⟨fun hrun ↦ ?_, fun heq ↦ heq ▸ .failed h⟩
  cases hrun with
  | failed h' =>
    obtain rfl := Except.error.inj (h'.symm.trans h)
    rfl
  | empty h' => cases h'.symm.trans h
  | loop h' => cases h'.symm.trans h

theorem performs_iff_of_end (h : (call x []).1 = .ok false) :
    call.Performs early o x r ↔ r = ⟨.ok .incomplete, 1, [], [.plain .trace "empty trace"]⟩ := by
  refine ⟨fun hrun ↦ ?_, fun heq ↦ heq ▸ .empty h⟩
  cases hrun with
  | failed h' => cases h'.symm.trans h
  | empty => rfl
  | loop h' => cases h'.symm.trans h

theorem performs_iff_of_state (h : (call x []).1 = .ok true) :
    call.Performs early o x r ↔
      Loop.Ends call early ⟨(call x []).2.2, o, (call x []).2.1, [], 1, []⟩ r := by
  refine ⟨fun hrun ↦ ?_, fun hends ↦ .loop h hends⟩
  cases hrun with
  | failed h' => cases h'.symm.trans h
  | empty h' => cases h'.symm.trans h
  | loop _ hends => exact hends

/-- **Calling a supplier gives the run over a source** that has the same states to offer and ends or
fails in the same way. -/
theorem performs_iff {source : Source ε} (h : call.Delivers source.failure x source.states) :
    call.Performs early o x r ↔ r = Run.ofSource early o source := by
  obtain ⟨opening, states, failure⟩ := source
  cases states with
  | nil =>
    cases failure with
    | some e => exact performs_iff_of_error (h [])
    | none => exact performs_iff_of_end (h [])
  | cons s rest =>
    obtain ⟨hmore, hbuffer, hrest⟩ := h []
    rw [performs_iff_of_state hmore, Loop.ends_iff hrest]
    simp only [hbuffer, Loop.followedBy, Run.ofSource, List.nil_append, Nat.add_comm 1]

end Call

/-! ### Suppliers -/

namespace Source

/-- A source as a supplier; a buffer is written to only if there is a state. -/
def call : Call (Source ε) ε := fun source buffer ↦
  match source.next with
  | (.ok (some s), source) => (.ok true, s, source)
  | (.ok none, source) => (.ok false, buffer, source)
  | (.error e, source) => (.error e, buffer, source)

theorem delivers (source : Source ε) : call.Delivers source.failure source source.states := by
  obtain ⟨opening, states, failure⟩ := source
  induction states generalizing opening with
  | nil =>
    intro buffer
    cases failure <;> rfl
  | cons s states ih => exact fun buffer ↦ ⟨rfl, rfl, ih []⟩

end Source

namespace TraceFile

/-- A trace file as a supplier. -/
def call (t : FileTree) : Call TraceFile TraceError := fun f buffer ↦
  ((f.next t buffer).1, (f.next t buffer).2.1, (f.next t buffer).2.2.1)

theorem call_of_reader (t : FileTree) (path : Path) (signature : Signature) (r : TraceReader)
    (buffer : State) :
    call t ⟨path, signature, some r⟩ buffer =
      ((r.next buffer).more, (r.next buffer).buffer,
        ⟨path, signature, some (r.next buffer).reader⟩) :=
  rfl

/-- An open file delivers the rows that are states, up to the first one that is none. -/
theorem delivers_deliver (t : FileTree) (path : Path) (signature : Signature) (r : TraceReader) :
    (call t).Delivers (TraceReader.deliver r.width r.columns r.step r.rows).2
      ⟨path, signature, some r⟩ (TraceReader.deliver r.width r.columns r.step r.rows).1 := by
  obtain ⟨width, columns, rows, step⟩ := r
  induction rows generalizing step with
  | nil => exact fun buffer ↦ rfl
  | cons row rows ih =>
    cases row with
    | error e => exact fun buffer ↦ rfl
    | ok cells =>
      rcases hfill : fillState (List.replicate width none) (columns.zip cells) with
        ⟨s, _ | ⟨name, value⟩⟩
      · simp only [TraceReader.deliver, hfill]
        intro buffer
        rw [call_of_reader]
        simp only [TraceReader.next, hfill]
        exact ⟨trivial, trivial, ih (step + 1)⟩
      · simp only [TraceReader.deliver, hfill]
        intro buffer
        rw [call_of_reader]
        simp only [TraceReader.next, hfill]
        rfl

/-- **A trace file delivers the states of its source**, although it is opened only when the first
state is asked for. -/
theorem delivers_source (t : FileTree) (signature : Signature) (path : Path) :
    (call t).Delivers (source t signature path).failure ⟨path, signature, none⟩
      (source t signature path).states := by
  rcases hopen : openReader t path signature with ⟨e | r, log⟩
  · have hsource : source t signature path = ⟨log, [], some e⟩ := by rw [source, hopen]
    rw [hsource]
    intro buffer
    simp only [call, next, Option.elim, hopen]
  · have hsource : source t signature path = r.source log := by rw [source, hopen]
    -- the call that opens the file is like a call of its reader
    have hfirst : ∀ buffer, call t ⟨path, signature, none⟩ buffer =
        call t ⟨path, signature, some r⟩ buffer := by
      intro buffer
      simp only [call, next, Option.elim, hopen]
    rw [hsource]
    exact (delivers_deliver t path signature r).congr hfirst

end TraceFile

end TemporalMonitor
