import TemporalMonitor.Proofs.AnnotatedTrace
import TemporalMonitor.Proofs.Compression
import TemporalMonitor.Proofs.Files
import TemporalMonitor.Proofs.Records

/-!
# Annotated traces can be read back

The file that a printer leaves behind, read as a trace under the same signature, delivers the states
that the printer was told of, in order, and then its end (`TracePrinter.delivers_of_session`).

The two halves meet at the rows of the annotated trace, one for each state (`TracePrinter.Rows`).
Writing puts the header and the rows into a file and compresses it, and the file is moved as it is
(`exists_rows_of_session`). Reading finds the header and the rows in the file again, trimmed, and
takes from each row the cells whose columns are named like variables: these are the cells of the
state, because the names of the other columns are not variables (`Catalogue.Readable.fillState_eq`).
-/

namespace TemporalMonitor

/-! ### Delivering states call by call -/

namespace TraceFile

/-- Calls deliver the states, one after the other, and then report the end of the trace, whatever
the buffer holds. -/
def Delivers (t : FileTree) : TraceFile → List State → Prop
  | f, [] => ∀ buffer, (f.next t buffer).1 = .ok false ∧ (f.next t buffer).2.1 = buffer
  | f, s :: states => ∀ buffer, (f.next t buffer).1 = .ok true ∧ (f.next t buffer).2.1 = s ∧
      Delivers t (f.next t buffer).2.2.1 states

theorem next_of_reader (t : FileTree) (path : Path) (signature : Signature) (r : TraceReader)
    (buffer : State) :
    next t ⟨path, signature, some r⟩ buffer =
      ((r.next buffer).more, (r.next buffer).buffer,
        ⟨path, signature, some (r.next buffer).reader⟩, []) := rfl

/-- The call that opens the file is like a call of its reader. -/
theorem next_of_openReader {t : FileTree} {path : Path} {signature : Signature} {r : TraceReader}
    {log : Log} (h : openReader t path signature = (.ok r, log)) (buffer : State) :
    next t ⟨path, signature, none⟩ buffer =
      ((r.next buffer).more, (r.next buffer).buffer,
        ⟨path, signature, some (r.next buffer).reader⟩, log) := by
  simp only [next, Option.elim, h]

theorem delivers_of_deliver {t : FileTree} {path : Path} {signature : Signature} {r : TraceReader}
    {states : List State}
    (h : TraceReader.deliver r.width r.columns r.step r.rows = (states, none)) :
    Delivers t ⟨path, signature, some r⟩ states := by
  obtain ⟨width, columns, rows, step⟩ := r
  induction rows generalizing step states with
  | nil =>
    cases h
    exact fun buffer ↦ ⟨rfl, rfl⟩
  | cons row rows ih =>
    cases row with
    | error e => cases h
    | ok cells =>
      simp only [TraceReader.deliver] at h
      rcases hfill : fillState (List.replicate width none) (columns.zip cells) with
        ⟨s, _ | ⟨name, value⟩⟩
      · rw [hfill] at h
        rcases hrest : TraceReader.deliver width columns (step + 1) rows with ⟨rest, failure⟩
        rw [hrest] at h
        cases h
        intro buffer
        have hnext : (TraceReader.mk width columns (.ok cells :: rows) step).next buffer =
            ⟨.ok true, s, ⟨width, columns, rows, step + 1⟩⟩ := by
          simp only [TraceReader.next, hfill]
        rw [next_of_reader, hnext]
        exact ⟨rfl, rfl, ih (step + 1) hrest⟩
      · rw [hfill] at h
        cases h

/-- A file that is opened delivers what its reader does. -/
theorem delivers_of_openReader {t : FileTree} {path : Path} {signature : Signature}
    {r : TraceReader} {log : Log} (hopen : openReader t path signature = (.ok r, log))
    {states : List State}
    (h : TraceReader.deliver r.width r.columns r.step r.rows = (states, none)) :
    Delivers t ⟨path, signature, none⟩ states := by
  have hreader : Delivers t ⟨path, signature, some r⟩ states := delivers_of_deliver h
  cases states with
  | nil =>
    intro buffer
    have hcall := hreader buffer
    rw [next_of_reader] at hcall
    rwa [next_of_openReader hopen]
  | cons s states =>
    intro buffer
    have hcall := hreader buffer
    rw [next_of_reader] at hcall
    rwa [next_of_openReader hopen]

end TraceFile

/-! ### Rows as states -/

theorem Properties.nodup_of_load {t : FileTree} {path : Path} {selection : Selection}
    {m : MonitoredProperties} (h : load t path selection = .ok m) :
    m.catalogue.signature.Nodup := by
  obtain ⟨p, -, hbuild⟩ := load_eq_ok_iff.1 h
  obtain ⟨_, _, _, rfl⟩ := build_eq_ok_iff.1 hbuild
  exact p.nodup_signature

theorem cellValue?_observationCell (v : Option Bool) :
    cellValue? (Text.trim (observationCell v)) = some v := by
  rcases v with _ | _ | _ <;> decide +kernel

theorem fillState_append_of_index_eq_none {cells : List (Column × String)}
    (h : ∀ x ∈ cells, x.1.index = none) (s : State) (rest : List (Column × String)) :
    fillState s (cells ++ rest) = fillState s rest := by
  induction cells with
  | nil => rfl
  | cons x cells ih =>
    obtain ⟨column, cell⟩ := x
    rw [List.forall_mem_cons] at h
    rw [List.cons_append, fillState, h.1]
    exact ih h.2

/-- The cells of a state fill the positions of their variables, from one of them on. -/
theorem fillState_signature {signature : Signature} (hnodup : signature.Nodup)
    (before names : List String) (hsignature : signature = before ++ names) (done s : State)
    (hdone : done.length = before.length) (hs : s.length = names.length)
    (rest : List (Column × String)) :
    fillState (done ++ List.replicate names.length none)
        ((TraceReader.columnsOf signature names).zip
          (s.map fun v ↦ Text.trim (observationCell v)) ++ rest) =
      fillState (done ++ s) rest := by
  induction names generalizing before done s with
  | nil =>
    cases s with
    | nil => rfl
    | cons v s => cases hs
  | cons name names ih =>
    cases s with
    | nil => cases hs
    | cons v s =>
      have hindex : signature.idxOf? name = some done.length := by
        refine Signature.idxOf?_of_name? hnodup ?_
        rw [Signature.name?, hsignature, hdone, List.getElem?_append_right (Nat.le_refl _),
          Nat.sub_self]
        rfl
      have hset : (done ++ List.replicate (names.length + 1) none).set done.length v =
          done ++ [v] ++ List.replicate names.length none := by
        rw [List.set_append_right _ _ (Nat.le_refl _), Nat.sub_self, List.append_assoc]
        rfl
      have hrest := ih (before ++ [name]) (by rw [hsignature, List.append_assoc]; rfl)
        (done ++ [v]) s
        (by rw [List.length_append, List.length_append, hdone]; rfl) (Nat.succ.inj hs)
      rw [List.append_assoc done [v] s] at hrest
      simp only [TraceReader.columnsOf, List.map_cons, List.zip_cons_cons, List.cons_append,
        fillState, hindex, cellValue?_observationCell, List.length_cons, hset]
      exact hrest

theorem index_eq_none_of_mem_zip {signature : Signature} {names : List String}
    (h : ∀ name ∈ names, name ∉ signature) {cells : List String} :
    ∀ x ∈ (TraceReader.columnsOf signature names).zip cells, x.1.index = none := by
  rintro ⟨column, cell⟩ hx
  obtain ⟨name, hname, rfl⟩ := List.mem_map.1 (List.of_mem_zip hx).1
  exact List.idxOf?_eq_none_iff.2 (h name hname)

/-- The columns of an annotated trace can be told apart: variables are trimmed, and no other column
is taken for one. -/
structure Catalogue.Readable (c : Catalogue) : Prop where
  /-- No variable is in two places. -/
  nodup : c.signature.Nodup
  /-- Trimming a variable does not change it. -/
  trimmed : ∀ v ∈ c.signature, Text.trim v = v
  /-- Trimming another name gives no variable. -/
  others : ∀ name ∈ "step" :: c.monitored, Text.trim name ∉ c.signature

/-- **A row is read as the state that it was written for**, whatever else is in it. -/
theorem Catalogue.Readable.fillState_eq {c : Catalogue} (hc : c.Readable) {s : State}
    (hs : s.length = c.signature.length) (step : String) (guarantees : List String) :
    fillState (List.replicate c.signature.length none)
      ((TraceReader.columnsOf c.signature
          (("step" :: c.signature ++ c.monitored).map Text.trim)).zip
        ((step :: s.map observationCell ++ guarantees).map Text.trim)) = (s, none) := by
  obtain ⟨hstep, hmonitored⟩ := List.forall_mem_cons.1 hc.others
  have htrimmed : c.signature.map Text.trim = c.signature := by
    rw [List.map_congr_left hc.trimmed, List.map_id']
  -- the cells of the state, between one cell and others that are not used
  have hzip : (TraceReader.columnsOf c.signature
      (("step" :: c.signature ++ c.monitored).map Text.trim)).zip
      ((step :: s.map observationCell ++ guarantees).map Text.trim) =
        (TraceReader.columnsOf c.signature [Text.trim "step"]).zip [Text.trim step] ++
        ((TraceReader.columnsOf c.signature c.signature).zip
          (s.map fun v ↦ Text.trim (observationCell v)) ++
        ((TraceReader.columnsOf c.signature (c.monitored.map Text.trim)).zip
          (guarantees.map Text.trim) ++ [])) := by
    rw [List.map_append, List.map_append, List.map_cons, List.map_cons, htrimmed, List.append_nil,
      TraceReader.columnsOf, List.map_append, List.zip_append (by simp [hs]), List.map_map]
    rfl
  rw [hzip, fillState_append_of_index_eq_none (index_eq_none_of_mem_zip (by simpa using hstep))]
  have hstate := fillState_signature hc.nodup [] c.signature rfl [] s rfl hs
  rw [List.nil_append] at hstate
  rw [hstate, List.nil_append,
    fillState_append_of_index_eq_none (index_eq_none_of_mem_zip (by simpa using hmonitored))]
  rfl

/-! ### What a printer writes -/

namespace TracePrinter

/-- What a printer is told about a state. -/
structure Entry where
  /-- The step. -/
  step : Nat
  /-- The state. -/
  state : State
  /-- The oracle after the state. -/
  oracle : Oracle

/-- A printer is told of states, one after the other. -/
def traceAll (p : TracePrinter) : List Entry → Desk → Except MissingName (Log × Desk)
  | [], d => .ok ([], d)
  | e :: entries, d =>
    (p.trace e.step e.state e.oracle d).bind fun r ↦
      (p.traceAll entries r.2).map fun rest ↦ (r.1 ++ rest.1, rest.2)

/-- A printer is told of the outcome, or there is none and it is given up. -/
def finish (p : TracePrinter) : Option Outcome → Desk → Log × Desk
  | some outcome, d => p.finalize outcome d
  | none, d => ([], p.abandon d)

/-- All that a printer does for one trace: its records, and the desk afterwards. -/
def session (p : TracePrinter) (entries : List Entry) (outcome : Option Outcome) (d : Desk) :
    Except MissingName (Log × Desk) :=
  (p.traceAll entries (p.init d).2).map fun r ↦
    ((p.init d).1 ++ r.1 ++ (p.finish outcome r.2).1, (p.finish outcome r.2).2)

/-- Where the annotated trace is in the end. -/
def destination (p : TracePrinter) : Option Outcome → Path
  | some outcome => (p.dir.join outcome.folder).join p.fileName
  | none => p.path

/-- The rows for states, each as long as the header. -/
def Rows (p : TracePrinter) : List Entry → List (List String) → Prop :=
  List.Forall₂ fun e cells ↦
    p.row e.step e.state e.oracle = .ok cells ∧ cells.length = p.header.length

/-- The bytes of an annotated trace. -/
def content (p : TracePrinter) (rows : List (List String)) : List UInt8 :=
  (p.header :: rows).flatMap fun row ↦ Csv.closedRecord (row.map Text.Utf8.ofString)

theorem exists_row_eq {p : TracePrinter} {step : Nat} {s : State} {o : Oracle}
    {cells : List String} (h : p.row step s o = .ok cells) :
    ∃ guarantees : List String, cells = step.repr :: s.map observationCell ++ guarantees := by
  obtain ⟨guarantees, -, hcells⟩ := exists_named_of_row h
  exact ⟨guarantees.map Progression.cell, hcells⟩

variable {p : TracePrinter} {d d' : Desk} {w : Csv.Writer} {log : Log}

/-- A record that is written without an error is as long as those before it. -/
theorem exists_row_of_trace (hw : d.writer = some w) {step : Nat} {s : State} {o : Oracle}
    (h : p.trace step s o d = .ok (log, d')) (hquiet : ∀ r ∈ log, r.level ≠ .error) :
    ∃ cells, p.row step s o = .ok cells ∧ cells.length = w.width ∧
      d' = { d with writer := some (w.write (fields cells)).1 } := by
  cases hrow : p.row step s o with
  | error e => simp [trace, hw, hrow, Except.map] at h
  | ok cells =>
    by_cases hlength : cells.length = w.width
    · rw [trace_of_row hw hrow hlength] at h
      cases h
      exact ⟨cells, rfl, hlength, rfl⟩
    · have hwidth : ¬(fields cells).length = w.width := by rwa [fields, List.length_map]
      simp only [trace, hw, hrow, Except.map, Csv.Writer.write, if_neg hwidth] at h
      cases h
      exact absurd rfl (hquiet _ List.mem_cons_self)

/-- **Rows are written one below the other.** -/
theorem exists_rows_of_traceAll {entries : List Entry} (hw : d.writer = some w)
    (hwidth : w.width = p.header.length) (h : p.traceAll entries d = .ok (log, d'))
    (hquiet : ∀ r ∈ log, r.level ≠ .error) :
    ∃ rows w', p.Rows entries rows ∧ d' = { d with writer := some w' } ∧
      w'.bytes = w.bytes ++
        rows.flatMap fun row ↦ Csv.closedRecord (row.map Text.Utf8.ofString) := by
  induction entries generalizing d w log with
  | nil =>
    cases h
    exact ⟨[], w, .nil, by rw [← hw], by simp⟩
  | cons e entries ih =>
    rw [traceAll] at h
    cases htrace : p.trace e.step e.state e.oracle d with
    | error e => rw [htrace] at h; cases h
    | ok r =>
      obtain ⟨first, d₁⟩ := r
      cases hrest : p.traceAll entries d₁ with
      | error e => rw [htrace, Except.bind, hrest] at h; cases h
      | ok r =>
        rw [htrace, Except.bind, hrest] at h
        cases h
        obtain ⟨hfirst, hlater⟩ := List.forall_mem_append.1 hquiet
        obtain ⟨cells, hrow, hlength, rfl⟩ := exists_row_of_trace hw htrace hfirst
        obtain ⟨rows, w', hrows, hd', hbytes⟩ := ih rfl
          ((Csv.Writer.width_write w (fields cells)).trans hwidth) hrest hlater
        have hfields : (fields cells).length = w.width := (List.length_map _).trans hlength
        refine ⟨cells :: rows, w', .cons ⟨hrow, hlength.trans hwidth⟩ hrows, hd', ?_⟩
        rw [hbytes, Csv.Writer.bytes_write hfields, List.flatMap_cons, List.append_assoc, fields]

theorem exists_destination_eq (p : TracePrinter) (outcome : Option Outcome) :
    ∃ front : String, p.destination outcome = front ++ ".csv.gz" := by
  have hjoin : ∀ dir : Path, ∃ front : String, dir.join p.fileName = front ++ ".csv.gz" := by
    intro dir
    obtain ⟨front, hfront⟩ := dir.exists_join_eq p.fileName
    exact ⟨front ++ p.name, by rw [hfront, fileName, String.append_assoc]⟩
  cases outcome with
  | none => exact hjoin p.dir
  | some o => exact hjoin (p.dir.join o.folder)

theorem endsWithSlash_destination (p : TracePrinter) (outcome : Option Outcome) :
    (p.destination outcome).endsWithSlash = false := by
  obtain ⟨front, hfront⟩ := p.exists_destination_eq outcome
  rw [hfront, Path.endsWithSlash_append]

/-- A file that is there gets its content when it is closed. -/
theorem openNode_close (hw : d.writer = some w) {old : List UInt8}
    (hopen : d.tree.openNode p.path = .ok (.file old)) :
    (d.close p.path).tree.openNode p.path = .ok (.file (Gzip.encode w.bytes)) := by
  have hpath : p.path.endsWithSlash = false := p.endsWithSlash_destination none
  obtain ⟨tree, htree⟩ :=
    FileTree.exists_writeFile_of_openNode hpath hopen (Gzip.encode w.bytes)
  simp only [Desk.close, hw, htree]
  exact FileTree.openNode_of_writeFile hpath htree

/-- **The file is at its destination in the end.** -/
theorem openNode_finish (hw : d.writer = some w) {old : List UInt8}
    (hopen : d.tree.openNode p.path = .ok (.file old)) {outcome : Option Outcome}
    (hquiet : ∀ r ∈ (p.finish outcome d).1, r.level ≠ .error) :
    (p.finish outcome d).2.tree.openNode (p.destination outcome) =
      .ok (.file (Gzip.encode w.bytes)) := by
  have hpath : p.path.endsWithSlash = false := p.endsWithSlash_destination none
  have hclose := openNode_close hw hopen
  cases outcome with
  | none => exact hclose
  | some o =>
    simp only [finish, finalize, hw] at hquiet ⊢
    rcases hfolder : (d.close p.path).tree.createDirectories (p.dir.join o.folder) with
      ⟨tree, _ | e⟩
    · have hkept := FileTree.openNode_createDirectories hpath hclose (p.dir.join o.folder)
      rw [hfolder] at hkept
      cases hmove : tree.moveFile p.path ((p.dir.join o.folder).join p.fileName) with
      | error e =>
        simp only [hfolder, hmove] at hquiet
        exact absurd rfl (hquiet _ List.mem_cons_self)
      | ok tree' =>
        simp only [hmove]
        exact FileTree.openNode_of_moveFile hpath (p.endsWithSlash_destination (some o)) hkept hmove
    · simp only [hfolder] at hquiet
      exact absurd rfl (hquiet _ List.mem_cons_self)

/-- **What a session leaves behind**: the header and the rows, compressed. -/
theorem exists_rows_of_session {entries : List Entry} {outcome : Option Outcome}
    (h : p.session entries outcome d = .ok (log, d')) (hquiet : ∀ r ∈ log, r.level ≠ .error) :
    ∃ rows, p.Rows entries rows ∧
      d'.tree.openNode (p.destination outcome) = .ok (.file (Gzip.encode (p.content rows))) := by
  rw [session] at h
  cases htraced : p.traceAll entries (p.init d).2 with
  | error e => rw [htraced] at h; cases h
  | ok r =>
    rw [htraced] at h
    cases h
    obtain ⟨hbefore, hend⟩ := List.forall_mem_append.1 hquiet
    obtain ⟨hinit, hrows⟩ := List.forall_mem_append.1 hbefore
    cases hfile : d.tree.writeFile p.path [] with
    | error e =>
      rw [init_of_writeFile_eq_error hfile] at hinit
      exact absurd rfl (hinit _ List.mem_cons_self)
    | ok tree =>
      rw [init_of_writeFile_eq_ok hfile] at htraced
      obtain ⟨rows, w, hrows, hdesk, hbytes⟩ := exists_rows_of_traceAll rfl (List.length_map _)
        htraced hrows
      have hopen : r.2.tree.openNode p.path = .ok (.file []) := by
        rw [hdesk]
        exact FileTree.openNode_of_writeFile (p.endsWithSlash_destination none) hfile
      have hcontent : w.bytes = p.content rows := by
        rw [hbytes, Csv.Writer.bytes_ofHeader, content, List.flatMap_cons, fields]
      refine ⟨rows, hrows, ?_⟩
      rw [← hcontent]
      exact openNode_finish (by rw [hdesk]) hopen hend

/-! ### What a reader reads -/

theorem isVisible_cons {cell : String} (h : cell ≠ "") (cells : List String) :
    Csv.IsVisible ((cell :: cells).map Text.Utf8.ofString) :=
  ⟨List.cons_ne_nil _ _, fun hnil ↦ Text.Utf8.ofString_ne_nil h (List.cons.inj hnil).1⟩

theorem isPrefixOf_content (p : TracePrinter) (rows : List (List String)) :
    Csv.byteOrderMark.isPrefixOf (p.content rows) = false := by
  -- the first byte is that of the letter `s`
  obtain ⟨bytes, hbytes⟩ : ∃ bytes, Csv.closedRecord (p.header.map Text.Utf8.ofString) =
      0x73 :: bytes := by
    rw [header, List.cons_append, List.map_cons]
    cases (p.catalogue.signature ++ p.catalogue.monitored).map Text.Utf8.ofString with
    | nil => exact ⟨_, rfl⟩
    | cons f fields => exact ⟨_, rfl⟩
  rw [content, List.flatMap_cons, hbytes]
  rfl

/-- The sheet of an annotated trace. -/
theorem ofStream_content {entries : List Entry} {rows : List (List String)}
    (hrows : p.Rows entries rows) :
    Csv.Sheet.ofStream ⟨p.content rows, none⟩ =
      .ok ⟨p.header.map Text.trim, rows.map fun row ↦ .ok (row.map Text.trim)⟩ := by
  have hlength : ∀ row ∈ rows, row.length = p.header.length := by
    intro row hrow
    obtain ⟨e, -, -, hlength⟩ := exists_mem_of_forall₂ hrows hrow
    exact hlength
  have hvisible : ∀ row ∈ p.header :: rows, Csv.IsVisible (row.map Text.Utf8.ofString) := by
    refine List.forall_mem_cons.2 ⟨isVisible_cons (by decide) _, fun row hrow ↦ ?_⟩
    obtain ⟨e, -, he, -⟩ := exists_mem_of_forall₂ hrows hrow
    obtain ⟨guarantees, rfl⟩ := exists_row_eq he
    exact isVisible_cons Nat.repr_ne_empty _
  exact Csv.Sheet.ofStream_written hlength hvisible rfl (p.isPrefixOf_content rows)

/-- The states of an annotated trace. -/
theorem deliver_rows (hp : p.catalogue.Readable) {entries : List Entry}
    (hwidth : ∀ e ∈ entries, e.state.length = p.catalogue.signature.length)
    {rows : List (List String)} (hrows : p.Rows entries rows) (step : Nat) :
    TraceReader.deliver p.catalogue.signature.length
        (TraceReader.columnsOf p.catalogue.signature (p.header.map Text.trim)) step
        (rows.map fun row ↦ .ok (row.map Text.trim)) =
      (entries.map (·.state), none) := by
  induction hrows generalizing step with
  | nil => rfl
  | @cons e cells entries rows hcells _ ih =>
    rw [List.forall_mem_cons] at hwidth
    obtain ⟨guarantees, rfl⟩ := exists_row_eq hcells.1
    have hfill : fillState (List.replicate p.catalogue.signature.length none)
        ((TraceReader.columnsOf p.catalogue.signature (p.header.map Text.trim)).zip
          ((e.step.repr :: e.state.map observationCell ++ guarantees).map Text.trim)) =
        (e.state, none) := hp.fillState_eq hwidth.1 e.step.repr guarantees
    simp only [List.map_cons, TraceReader.deliver, hfill, ih hwidth.2]

/-- **An annotated trace is read as the states that it was written for**, however its content was
compressed. -/
theorem delivers_of_content (hp : p.catalogue.Readable) {entries : List Entry}
    (hwidth : ∀ e ∈ entries, e.state.length = p.catalogue.signature.length)
    {rows : List (List String)} (hrows : p.Rows entries rows) {t : FileTree} {front : String}
    {bytes : List UInt8} (hopen : t.openNode (front ++ ".csv.gz") = .ok (.file bytes))
    (hbytes : Gzip.decode bytes = ⟨p.content rows, none⟩) :
    TraceFile.Delivers t ⟨front ++ ".csv.gz", p.catalogue.signature, none⟩
      (entries.map (·.state)) := by
  have hcompressed : TraceFile.isCompressed (front ++ ".csv.gz") = true := by
    rw [TraceFile.isCompressed, Path.fileExtension?_append]
    rfl
  obtain ⟨log, hreader⟩ : ∃ log,
      TraceFile.openReader t (front ++ ".csv.gz") p.catalogue.signature =
        (.ok (.ofSheet p.catalogue.signature
          ⟨p.header.map Text.trim, rows.map fun row ↦ .ok (row.map Text.trim)⟩), log) := by
    simp only [TraceFile.openReader, hopen, ByteStream.ofNode, if_pos hcompressed,
      ByteStream.gunzip_of_decode hbytes, TraceReader.ofStream, ofStream_content hrows]
    exact ⟨_, rfl⟩
  exact TraceFile.delivers_of_openReader hreader (deliver_rows hp hwidth hrows 0)

/-- **Annotated traces can be read back.** A printer of loaded properties is told of any states as
long as the signature, at any steps and with any oracles, and no error is recorded; then its file,
read under the same signature, delivers these states and after them the end of the trace.

Variables are asked to be trimmed, and the other names in the header not to become variables by
trimming. Thus no variable is called `step` or like a guarantee that is monitored. -/
theorem delivers_of_session {t : FileTree} {path : Path} {selection : Selection}
    {m : MonitoredProperties} (hload : Properties.load t path selection = .ok m)
    {p : TracePrinter} (hp : p.catalogue = m.catalogue)
    (htrimmed : ∀ v ∈ m.catalogue.signature, Text.trim v = v)
    (hothers : ∀ name ∈ "step" :: m.catalogue.monitored,
      Text.trim name ∉ m.catalogue.signature)
    {entries : List Entry}
    (hwidth : ∀ e ∈ entries, e.state.length = m.catalogue.signature.length)
    {outcome : Option Outcome} {d d' : Desk} {log : Log}
    (hsession : p.session entries outcome d = .ok (log, d'))
    (hquiet : ∀ r ∈ log, r.level ≠ .error) :
    TraceFile.Delivers d'.tree ⟨p.destination outcome, m.catalogue.signature, none⟩
      (entries.map (·.state)) := by
  rw [← hp] at htrimmed hothers hwidth ⊢
  have hreadable : p.catalogue.Readable := ⟨hp ▸ Properties.nodup_of_load hload, htrimmed, hothers⟩
  obtain ⟨rows, hrows, hopen⟩ := exists_rows_of_session hsession hquiet
  obtain ⟨front, hfront⟩ := p.exists_destination_eq outcome
  rw [hfront] at hopen ⊢
  exact delivers_of_content hreadable hwidth hrows hopen (Gzip.decode_encode _)

/-- Two states of variables one of which is written in quotes, in a trace that ends up among the
failures. -/
theorem delivers_of_session_quoted :
    let properties := "[[],[[\"p\",\x7b\"always\":\x7b\"var\":\"x,y\"\x7d\x7d]," ++
      "[\"q\",\x7b\"eventually\":\x7b\"var\":\"b\"\x7d\x7d]]]"
    let tree : FileTree := ⟨[(["out"], .directory),
      (["p.json"], .file (Text.Utf8.ofString properties))]⟩
    let m : MonitoredProperties :=
      ⟨.ofFormulas [] [.always (.var 0), .eventually (.var 1)],
        ⟨["x,y", "b"], ["p", "q"], ["p", "q"]⟩⟩
    let first : Judged := ⟨m.oracle, [some true, none], false⟩
    let second : Judged := ⟨first.after, [none, some false], true⟩
    let p : TracePrinter := ⟨"out", "t", m.catalogue⟩
    let entries : List Entry :=
      [⟨0, first.state, first.after⟩, ⟨1, second.state, second.after⟩]
    let outcome : Option Outcome := some (.verified [false, false])
    Properties.load tree "p.json" .all = .ok m ∧
      p.destination outcome = "out/failure/t.csv.gz" ∧
      ∃ log d', p.session entries outcome ⟨tree, none⟩ = .ok (log, d') ∧
        (∀ r ∈ log, r.level ≠ .error) ∧
        TraceFile.Delivers d'.tree ⟨p.destination outcome, m.catalogue.signature, none⟩
          (entries.map (·.state)) := by
  intro properties tree m first second p entries outcome
  have hload : Properties.load tree "p.json" .all = .ok m := by decide +kernel
  have hlog : (p.session entries outcome ⟨tree, none⟩).toOption.map
      (fun r ↦ r.1.all (·.level ≠ .error)) = some true := by decide +kernel
  cases hsession : p.session entries outcome ⟨tree, none⟩ with
  | error e =>
    rw [hsession] at hlog
    cases hlog
  | ok r =>
    rw [hsession] at hlog
    have hquiet : ∀ x ∈ r.1, x.level ≠ .error := by
      simpa [Except.toOption] using hlog
    exact ⟨hload, by decide +kernel, r.1, r.2, rfl, hquiet,
      delivers_of_session hload (p := p) rfl (by decide) (by decide +kernel) (by decide) hsession
        hquiet⟩

end TracePrinter

end TemporalMonitor
