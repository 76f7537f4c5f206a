import TemporalMonitor.Proofs.Batch
import TemporalMonitor.Proofs.Building
import TemporalMonitor.Proofs.Residual
import TemporalMonitor.Trace.File
import TemporalMonitor.Trace.Printer

/-!
# Annotated traces are well formed

Every row of an annotated trace is as long as its header, and every position in it has a name
(`Job.wellFormedAt_of_load`). So a printer of the traces of loaded properties never meets a position
without a name, and never a row that cannot be written.

Two things are carried through a run. The oracle fits the catalogue of the properties: its formulas
are over the positions of the signature, and it has a guarantee for each name that is monitored
(`Catalogue.Fits`). The states are as long as the signature, because a trace file delivers no others
(`TraceFile.length_of_mem_source`). Between the runs of a batch no file is open
(`Job.writer_traces`), so a file that is open has the header of its own run.
-/

namespace TemporalMonitor

/-! ### Oracles over a catalogue -/

theorem hereditary_below (n : Nat) : Hereditary fun f : Formula Nat ↦ ∀ i ∈ f.vars, i < n where
  const _ := fun _ hi ↦ absurd hi List.not_mem_nil
  neg := Iff.rfl
  conj := List.forall_mem_append
  disj := List.forall_mem_append
  next := id
  eventually := id
  always := id

/-- An oracle over the names of a catalogue. -/
structure Catalogue.Fits (c : Catalogue) (o : Oracle) : Prop where
  /-- The properties are over the positions of the signature. -/
  positions : ∀ q ∈ o.assumes ++ o.guarantees, ∀ i ∈ q.toFormula.vars, i < c.signature.length
  /-- There is a guarantee for each name that is monitored. -/
  length : o.guarantees.length = c.monitored.length

theorem Catalogue.Fits.update {c : Catalogue} {o : Oracle} (h : c.Fits o) (s : State)
    (final : Bool) : c.Fits (o.update s final) where
  positions := by
    intro q hq
    rw [Oracle.update, ← List.map_append] at hq
    obtain ⟨q, hmem, rfl⟩ := List.mem_map.1 hq
    cases q with
    | verdict b => exact h.positions _ hmem
    | residual f =>
      exact (hereditary_below c.signature.length).progress s.value final (h.positions _ hmem)
  length := (List.length_map _).trans h.length

/-- **Loaded properties are over the names that are loaded with them.** -/
theorem Properties.fits_of_load {t : FileTree} {path : Path} {selection : Selection}
    {m : MonitoredProperties} (h : load t path selection = .ok m) : m.catalogue.Fits m.oracle := by
  obtain ⟨p, -, hbuild⟩ := load_eq_ok_iff.1 h
  obtain ⟨_, guarantees, hguarantees, rfl⟩ := build_eq_ok_iff.1 hbuild
  refine ⟨?_, (List.length_map _).trans hguarantees.length_eq.symm⟩
  intro q hq
  rcases List.mem_append.1 hq with hq | hq
  · obtain ⟨g, hg, rfl⟩ := List.mem_map.1 hq
    obtain ⟨f, -, hreads⟩ := exists_mem_of_forall₂ p.reads_indexedAssumes hg
    exact fun i hi ↦ hreads.lt_length hi
  · obtain ⟨g, hg, rfl⟩ := List.mem_map.1 hq
    obtain ⟨name, -, hname⟩ := exists_mem_of_forall₂ hguarantees hg
    obtain ⟨f, -, -, hreads⟩ := exists_of_lookup p.reads_indexedGuarantees hname
    exact fun i hi ↦ hreads.lt_length hi

/-! ### The states that a run judges -/

namespace Run

variable {ε : Type} {P : Oracle → Prop}

theorem of_mem_judged_ofDelivered (hP : ∀ o s final, P o → P (o.update s final)) {early : Bool}
    {failure : Option ε} {o : Oracle} (ho : P o) {s : State} {rest : List State} {j : Judged}
    (hj : j ∈ (ofDelivered early failure o s rest).judged) : P j.before ∧ j.state ∈ s :: rest := by
  fun_induction ofDelivered early failure o s rest with
  | case1 o s e => cases hj
  | case2 o s _ j' outcome r hstop =>
    obtain rfl := List.mem_singleton.1 hj
    exact ⟨ho, List.mem_cons_self⟩
  | case3 o s _ j' hstop =>
    obtain rfl := List.mem_singleton.1 hj
    exact ⟨ho, List.mem_cons_self⟩
  | case4 o s t rest j' outcome r hstop =>
    obtain rfl := List.mem_singleton.1 hj
    exact ⟨ho, List.mem_cons_self⟩
  | case5 o s t rest j' hstop ih =>
    rcases List.mem_cons.1 hj with rfl | hj
    · exact ⟨ho, List.mem_cons_self⟩
    · obtain ⟨hbefore, hstate⟩ := ih (hP o s false ho) hj
      exact ⟨hbefore, List.mem_cons_of_mem s hstate⟩

/-- What every update keeps holds in front of every state that is judged, and only states of the
source are. -/
theorem of_mem_judged (hP : ∀ o s final, P o → P (o.update s final)) {early : Bool} {o : Oracle}
    (ho : P o) {source : Source ε} {j : Judged} (hj : j ∈ (ofSource early o source).judged) :
    P j.before ∧ j.state ∈ source.states := by
  obtain ⟨opening, states, failure⟩ := source
  cases states with
  | nil => cases failure <;> cases hj
  | cons s rest => exact of_mem_judged_ofDelivered hP ho hj

end Run

theorem length_fillState (s : State) (cells : List (Column × String)) :
    (fillState s cells).1.length = s.length := by
  fun_induction fillState s cells with
  | case1 s => rfl
  | case2 s column cell rest hindex ih => exact ih
  | case3 s column cell rest i hindex hvalue => rfl
  | case4 s column cell rest i hindex v hvalue ih => rw [ih, List.length_set]

theorem TraceReader.length_of_mem_deliver {width : Nat} {columns : List Column} {step : Nat}
    {rows : List (Except Csv.Error (List String))} {s : State}
    (hs : s ∈ (deliver width columns step rows).1) : s.length = width := by
  induction rows generalizing step with
  | nil => cases hs
  | cons row rows ih =>
    cases row with
    | error e => cases hs
    | ok cells =>
      have hlength := length_fillState (List.replicate width none) (columns.zip cells)
      rw [deliver] at hs
      rcases hfill : fillState (List.replicate width none) (columns.zip cells) with
        ⟨state, _ | ⟨name, value⟩⟩
      · rw [hfill] at hs hlength
        rcases List.mem_cons.1 hs with rfl | hs
        · exact hlength.trans List.length_replicate
        · exact ih hs
      · rw [hfill] at hs
        cases hs

theorem TraceReader.width_of_ofStream {signature : Signature} {b : ByteStream} {r : TraceReader}
    (h : (ofStream signature b).1 = .ok r) : r.width = signature.length := by
  rw [ofStream] at h
  cases hsheet : Csv.Sheet.ofStream b with
  | error e => simp [hsheet] at h
  | ok sheet =>
    simp only [hsheet, Except.ok.injEq] at h
    subst h
    rfl

theorem TraceFile.width_of_openReader {t : FileTree} {signature : Signature} {path : Path}
    {r : TraceReader} (h : (openReader t path signature).1 = .ok r) :
    r.width = signature.length := by
  rw [openReader] at h
  cases hopen : t.openNode path with
  | error e => simp [hopen] at h
  | ok node =>
    simp only [hopen] at h
    split_ifs at h <;> exact TraceReader.width_of_ofStream h

/-- A trace file delivers states as long as the signature. -/
theorem TraceFile.length_of_mem_source {t : FileTree} {signature : Signature} {path : Path}
    {s : State} (hs : s ∈ (source t signature path).states) : s.length = signature.length := by
  rw [source] at hs
  rcases hopen : openReader t path signature with ⟨e | r, log⟩
  · rw [hopen] at hs
    cases hs
  · have hwidth := width_of_openReader (congrArg Prod.fst hopen)
    rw [hopen] at hs
    exact (TraceReader.length_of_mem_deliver hs).trans hwidth

/-! ### Rows -/

theorem exists_mapM_eq_ok {α β ε : Type} {f : α → Except ε β} {as : List α}
    (h : ∀ a ∈ as, ∃ b, f a = .ok b) : ∃ bs, as.mapM f = .ok bs ∧ bs.length = as.length := by
  induction as with
  | nil => exact ⟨[], rfl, rfl⟩
  | cons a as ih =>
    rw [List.forall_mem_cons] at h
    obtain ⟨b, hb⟩ := h.1
    obtain ⟨bs, hbs, hlength⟩ := ih h.2
    refine ⟨b :: bs, ?_, congrArg (· + 1) hlength⟩
    rw [List.mapM_cons, hb, hbs]
    rfl

theorem Signature.exists_mapM_name {s : Signature} {f : Formula Nat}
    (h : ∀ i ∈ f.vars, i < s.length) : ∃ g, f.mapM s.name = .ok g := by
  induction f with
  | const b => exact ⟨.const b, rfl⟩
  | var i =>
    have hi : i < s.length := h i (List.mem_singleton_self i)
    refine ⟨.var s[i], ?_⟩
    rw [Formula.mapM, name, name?, List.getElem?_eq_getElem hi]
    rfl
  | neg f ih | next f ih | eventually f ih | always f ih =>
    obtain ⟨g, hg⟩ := ih h
    rw [Formula.mapM, hg]
    exact ⟨_, rfl⟩
  | conj f f' ih ih' | disj f f' ih ih' | strongUntil f f' ih ih' =>
    obtain ⟨hf, hf'⟩ := List.forall_mem_append.1 h
    obtain ⟨g, hg⟩ := ih hf
    obtain ⟨g', hg'⟩ := ih' hf'
    rw [Formula.mapM, hg, hg']
    exact ⟨_, rfl⟩

theorem Progression.exists_named {s : Signature} {q : Progression Nat}
    (h : ∀ i ∈ q.toFormula.vars, i < s.length) : ∃ r, q.named s = .ok r := by
  cases q with
  | verdict b => exact ⟨.verdict b, rfl⟩
  | residual f =>
    obtain ⟨g, hg⟩ : ∃ g, f.mapM s.name = .ok g := Signature.exists_mapM_name h
    exact ⟨.residual g, by rw [named, hg]; rfl⟩

theorem Csv.Writer.width_write (w : Writer) (fields : List Field) :
    (w.write fields).1.width = w.width := by
  rw [write]
  split_ifs <;> rfl

theorem Desk.writer_close (d : Desk) (path : Path) : (d.close path).writer = none := by
  rw [close]
  cases hwriter : d.writer with
  | none => exact hwriter
  | some w => cases h : d.tree.writeFile path (Gzip.encode w.bytes) <;> simp only [h]

namespace TracePrinter

theorem length_header (p : TracePrinter) :
    p.header.length = 1 + p.catalogue.signature.length + p.catalogue.monitored.length := by
  rw [header, List.length_append, List.length_cons]
  omega

/-- **A state has a row as long as the header.** -/
theorem exists_row {p : TracePrinter} {o : Oracle} (ho : p.catalogue.Fits o) {s : State}
    (hs : s.length = p.catalogue.signature.length) (step : Nat) :
    ∃ cells, p.row step s o = .ok cells ∧ cells.length = p.header.length := by
  obtain ⟨guarantees, hguarantees, hlength⟩ := exists_mapM_eq_ok fun q hq ↦
    Progression.exists_named (ho.positions q (List.mem_append_right o.assumes hq))
  refine ⟨step.repr :: s.map observationCell ++ guarantees.map (·.cell), ?_, ?_⟩
  · rw [row, hguarantees]
    rfl
  · rw [length_header, ← hs, ← ho.length, ← hlength]
    simp
    omega

/-- A row has a cell for the step, for each position and for each guarantee. -/
theorem exists_named_of_row {p : TracePrinter} {step : Nat} {s : State} {o : Oracle}
    {cells : List String} (h : p.row step s o = .ok cells) :
    ∃ guarantees, o.guarantees.mapM (·.named p.catalogue.signature) = .ok guarantees ∧
      cells = step.repr :: (s.map observationCell ++ guarantees.map (·.cell)) := by
  rw [row] at h
  cases hguarantees : o.guarantees.mapM (·.named p.catalogue.signature) with
  | error e => simp [hguarantees, bind, Except.bind] at h
  | ok guarantees =>
    rw [hguarantees] at h
    cases h
    exact ⟨guarantees, rfl, rfl⟩

/-! ### Open files -/

/-- If a file is open, then its records are as long as the header. -/
def Suits (p : TracePrinter) (d : Desk) : Prop :=
  ∀ w, d.writer = some w → w.width = p.header.length

theorem trace_of_row {p : TracePrinter} {d : Desk} {w : Csv.Writer} (hw : d.writer = some w)
    {step : Nat} {s : State} {o : Oracle} {cells : List String}
    (hrow : p.row step s o = .ok cells) (hlength : cells.length = w.width) :
    p.trace step s o d = .ok ([], { d with writer := some (w.write (fields cells)).1 }) := by
  have hwidth : (fields cells).length = w.width := (List.length_map _).trans hlength
  simp only [trace, hw, hrow, Except.map, Csv.Writer.write, if_pos hwidth]

/-- **A row as long as the header is written**, if a file is open. -/
theorem exists_trace {p : TracePrinter} {d : Desk} (hd : p.Suits d) {step : Nat} {s : State}
    {o : Oracle} {cells : List String} (hrow : p.row step s o = .ok cells)
    (hlength : cells.length = p.header.length) :
    ∃ d', p.trace step s o d = .ok ([], d') ∧ p.Suits d' ∧
      d'.writer.isSome = d.writer.isSome := by
  cases hwriter : d.writer with
  | none => exact ⟨d, by rw [trace, hwriter], hd, by rw [hwriter]⟩
  | some w =>
    refine ⟨_, trace_of_row hwriter hrow (hlength.trans (hd w hwriter).symm), ?_, rfl⟩
    rintro w' hw'
    cases hw'
    rw [Csv.Writer.width_write, hd w hwriter]

theorem init_of_writeFile_eq_error {p : TracePrinter} {d : Desk} {e : FileError}
    (h : d.tree.writeFile p.path [] = .error e) :
    p.init d =
      ([.plain .error ("failed to create trace file '" ++ p.path ++ "': " ++ e.message)], d) := by
  delta init
  rw [h]

theorem init_of_writeFile_eq_ok {p : TracePrinter} {d : Desk} {tree : FileTree}
    (h : d.tree.writeFile p.path [] = .ok tree) :
    p.init d = ([], ⟨tree, some (.ofHeader (fields p.header))⟩) := by
  delta init
  rw [h]

theorem suits_init {p : TracePrinter} {d : Desk} (hd : d.writer = none) : p.Suits (p.init d).2 := by
  cases hfile : d.tree.writeFile p.path [] with
  | error e =>
    rw [init_of_writeFile_eq_error hfile]
    exact fun w hw ↦ by simp [hd] at hw
  | ok tree =>
    rw [init_of_writeFile_eq_ok hfile]
    intro w hw
    cases hw
    exact List.length_map _

/-- A printer that is told of states keeps to the length of the header. -/
theorem suits_tellSteps {p : TracePrinter} {judged : List Judged}
    (hjudged : ∀ j ∈ judged, p.catalogue.Fits j.after ∧
      j.state.length = p.catalogue.signature.length) {d : Desk} (hd : p.Suits d) :
    p.Suits (p.observer.tellSteps judged d).2 := by
  induction judged generalizing d with
  | nil => exact hd
  | cons j judged ih =>
    rw [List.forall_mem_cons] at hjudged
    obtain ⟨cells, hrow, hlength⟩ := exists_row hjudged.1.1 hjudged.1.2 j.before.step
    obtain ⟨d', htrace, hd', -⟩ := exists_trace hd hrow hlength
    have hstep : p.observer.step j d = ([], d') := by simp only [observer, htrace]
    rw [Observer.tellSteps, hstep]
    exact ih hjudged.2 hd'

theorem writer_finalize (p : TracePrinter) (outcome : Outcome) (d : Desk) :
    (p.finalize outcome d).2.writer = none := by
  rw [finalize]
  cases hwriter : d.writer with
  | none => exact hwriter
  | some w =>
    have hclose := d.writer_close p.path
    rcases hfolder : (d.close p.path).tree.createDirectories (p.dir.join outcome.folder) with
      ⟨tree, _ | e⟩
    · cases hmove : tree.moveFile p.path ((p.dir.join outcome.folder).join p.fileName) <;>
        simp only [hfolder, hmove, hclose]
    · simp only [hfolder, hclose]

theorem writer_tellEnd {ε : Type} (p : TracePrinter) (outcome : Except ε Outcome) (d : Desk) :
    (p.observer.tellEnd outcome d).2.writer = none := by
  cases outcome with
  | ok o => exact p.writer_finalize o d
  | error e => exact d.writer_close p.path

end TracePrinter

/-! ### Batches -/

/-- What relates the worlds before and after each item relates those before and after all. -/
theorem Monitor.related_performAll {α ε ω : Type}
    {perform : Statistics → α → ω → Performance ε × ω} {R : ω → ω → Prop} (hrefl : ∀ w, R w w)
    (htrans : ∀ u v w, R u v → R v w → R u w) {items : List α}
    (h : ∀ a ∈ items, ∀ stats world, R world (perform stats a world).2) (i : Nat)
    (stats : Statistics) (world : ω) : R world (performAll perform i stats items world).2 := by
  induction items generalizing i stats world with
  | nil => exact hrefl world
  | cons a items ih =>
    obtain ⟨ha, hitems⟩ := List.forall_mem_cons.1 h
    have hfirst := ha stats world
    rcases hperform : perform stats a world with ⟨⟨e | o, log⟩, world'⟩
    · simp only [performAll, hperform]
      rwa [hperform] at hfirst
    · simp only [performAll, hperform]
      rw [hperform] at hfirst
      exact htrans _ _ _ hfirst (ih hitems (i + 1) _ world')

/-- What holds whenever an item has been performed holds in the end. -/
theorem Monitor.world_performAll {α ε ω : Type}
    {perform : Statistics → α → ω → Performance ε × ω} {P : ω → Prop} {items : List α}
    (h : ∀ a ∈ items, ∀ stats world, P (perform stats a world).2) (i : Nat) (stats : Statistics)
    {world : ω} (hworld : P world) : P (performAll perform i stats items world).2 :=
  related_performAll (R := fun u v ↦ P u → P v) (fun _ ↦ id) (fun _ _ _ h h' hu ↦ h' (h hu))
    (fun a ha stats world _ ↦ h a ha stats world) i stats world hworld

/-- What is left behind by a run and its observer. -/
theorem Monitor.world_performTraced {ε ω : Type} (m : Monitor) (stats : Statistics)
    (observer : Observer ω) (source : ω → Source ε) (world : ω) :
    (m.performTraced stats (observer, source) world).2 =
      (observer.tellEnd ((source (observer.init stats world).2).trace m.oracle).outcome
        (observer.tellSteps ((source (observer.init stats world).2).trace m.oracle).judged
          (observer.init stats world).2).2).2 := rfl

/-- A trace to be annotated. -/
structure Job where
  /-- The output directory. -/
  dir : Path
  /-- The name of the annotated trace. -/
  name : String
  /-- The trace file. -/
  file : Path

namespace Job

/-- The printer of a job. -/
def printer (c : Catalogue) (job : Job) : TracePrinter := ⟨job.dir, job.name, c⟩

/-- The trace of a job, as it is found at a desk. -/
def source (c : Catalogue) (job : Job) (d : Desk) : Source TraceError :=
  TraceFile.source d.tree c.signature job.file

/-- A job as an item of a batch. -/
def item (c : Catalogue) (job : Job) : Observer Desk × (Desk → Source TraceError) :=
  ((job.printer c).observer, job.source c)

/-- The desk when the run of a job starts. -/
def opened (c : Catalogue) (job : Job) (d : Desk) : Desk := ((job.printer c).init d).2

/-- The run of a job. -/
def run (c : Catalogue) (job : Job) (o : Oracle) (d : Desk) : Run TraceError :=
  (job.source c (job.opened c d)).trace o

/-- The desk after the printer of a job has been told of states. -/
def told (c : Catalogue) (job : Job) (d : Desk) (judged : List Judged) : Desk :=
  ((job.printer c).observer.tellSteps judged (job.opened c d)).2

variable {c : Catalogue}

/-- Performing a job: its printer is told of all states judged, and then of the end. -/
theorem performTraced_item (job : Job) (monitor : Monitor) (stats : Statistics) (d : Desk) :
    (monitor.performTraced stats (job.item c) d).2 =
      ((job.printer c).observer.tellEnd (job.run c monitor.oracle d).outcome
        (job.told c d (job.run c monitor.oracle d).judged)).2 :=
  monitor.world_performTraced stats (job.printer c).observer (job.source c) d

/-- **Between the runs of a batch no file is open.** -/
theorem writer_traces (jobs : List Job) (monitor : Monitor) (tree : FileTree) :
    (monitor.traces (jobs.map (item c)) ⟨tree, none⟩).2.writer = none := by
  have hperform : ∀ a ∈ jobs.map (item c), ∀ stats d,
      (monitor.performTraced stats a d).2.writer = none := by
    intro a ha stats d
    obtain ⟨job, -, rfl⟩ := List.mem_map.1 ha
    exact (congrArg Desk.writer (job.performTraced_item monitor stats d)).trans
      ((job.printer c).writer_tellEnd _ _)
  exact Monitor.world_performAll (P := fun d : Desk ↦ d.writer = none) hperform 0 _ rfl

end Job

/-- What holds when a printer is told that a state was judged. -/
structure TracePrinter.WellFormedAt (p : TracePrinter) (j : Judged) (d : Desk) : Prop where
  /-- All positions in what is left of the properties are positions of the signature. -/
  positions : ∀ o ∈ [j.before, j.after], ∀ f, .residual f ∈ o.assumes ++ o.guarantees →
    ∀ i ∈ f.vars, i < p.catalogue.signature.length
  /-- The header has a cell for the step, for each variable and for each guarantee. -/
  header : p.header.length = 1 + p.catalogue.signature.length + p.catalogue.monitored.length
  /-- There is a row, as long as the header. -/
  row : ∃ cells, p.row j.before.step j.state j.after = .ok cells ∧ cells.length = p.header.length
  /-- It is accepted: nothing is recorded in the log, and a file that is open stays open. -/
  trace : ∃ d', p.trace j.before.step j.state j.after d = .ok ([], d') ∧
    d'.writer.isSome = d.writer.isSome

namespace Job

/-- **Annotated traces are well formed**, at each state `j` that is judged in a batch of traces,
where `jobs` are performed before `job`, and `done` are the states judged before. -/
theorem wellFormedAt_of_load {t : FileTree} {path : Path} {selection : Selection}
    {m : MonitoredProperties} (hload : Properties.load t path selection = .ok m)
    {monitor : Monitor} (hmonitor : monitor.oracle = m.oracle) (jobs : List Job) (job : Job)
    (tree : FileTree) {d : Desk}
    (hd : d = (monitor.traces (jobs.map (item m.catalogue)) ⟨tree, none⟩).2)
    {done later : List Judged} {j : Judged}
    (hjudged : (job.run m.catalogue monitor.oracle d).judged = done ++ j :: later) :
    (job.printer m.catalogue).WellFormedAt j (job.told m.catalogue d done) := by
  have hfits : ∀ j' ∈ done ++ j :: later, m.catalogue.Fits j'.before ∧ m.catalogue.Fits j'.after ∧
      j'.state.length = m.catalogue.signature.length := by
    intro j' hj'
    rw [← hjudged] at hj'
    obtain ⟨hbefore, hstate⟩ := Run.of_mem_judged (P := m.catalogue.Fits)
      (fun _ s final h ↦ h.update s final) (hmonitor ▸ Properties.fits_of_load hload) hj'
    exact ⟨hbefore, hbefore.update _ _, TraceFile.length_of_mem_source hstate⟩
  obtain ⟨hdone, hrest⟩ := List.forall_mem_append.1 hfits
  obtain ⟨hbefore, hafter, hlength⟩ := hrest j List.mem_cons_self
  have hsuits : (job.printer m.catalogue).Suits (job.told m.catalogue d done) :=
    TracePrinter.suits_tellSteps (fun j' hj' ↦ (hdone j' hj').2)
      (TracePrinter.suits_init (hd ▸ writer_traces jobs monitor tree))
  obtain ⟨cells, hrow, hcells⟩ :=
    TracePrinter.exists_row (p := job.printer m.catalogue) hafter hlength j.before.step
  obtain ⟨d', htrace, -, hopen⟩ := TracePrinter.exists_trace hsuits hrow hcells
  refine ⟨?_, TracePrinter.length_header _, ⟨cells, hrow, hcells⟩, ⟨d', htrace, hopen⟩⟩
  intro o ho f hf
  rcases List.mem_pair.1 ho with rfl | rfl
  · exact hbefore.positions _ hf
  · exact hafter.positions _ hf

/-- The second of two traces, at its second state, where the guarantee is still open. -/
theorem wellFormedAt_of_load_second :
    let properties := "[[],[[\"p\",\x7b\"always\":\x7b\"var\":\"a\"\x7d\x7d]," ++
      "[\"q\",\x7b\"eventually\":\x7b\"var\":\"b\"\x7d\x7d]]]"
    let tree : FileTree := ⟨[(["out"], .directory),
      (["p.json"], .file (Text.Utf8.ofString properties)),
      (["t.csv"], .file (Text.Utf8.ofString "b,a\n0,1\n,1\n1,0\n"))]⟩
    let m : MonitoredProperties :=
      ⟨.ofFormulas [] [.eventually (.var 1)], ⟨["a", "b"], ["p", "q"], ["q"]⟩⟩
    let one : Job := ⟨"out", "one", "t.csv"⟩
    let two : Job := ⟨"out", "two", "t.csv"⟩
    let d := ((Monitor.mk m.oracle {}).traces ([one].map (item m.catalogue)) ⟨tree, none⟩).2
    let first : Judged := ⟨m.oracle, [some true, some false], false⟩
    let second : Judged := ⟨first.after, [some true, none], false⟩
    let third : Judged := ⟨second.after, [some false, some true], true⟩
    Properties.load tree "p.json" (.named ["q"]) = .ok m ∧
      (two.run m.catalogue m.oracle d).judged = [first, second, third] ∧
      (two.printer m.catalogue).WellFormedAt second (two.told m.catalogue d [first]) := by
  intro properties tree m one two d first second third
  have hload : Properties.load tree "p.json" (.named ["q"]) = .ok m := by decide +kernel
  have hjudged : (two.run m.catalogue m.oracle d).judged = [first, second, third] := by
    decide +kernel
  exact ⟨hload, hjudged, @wellFormedAt_of_load tree "p.json" (.named ["q"]) m hload ⟨m.oracle, {}⟩
    rfl [one] two tree d rfl [first] [third] second hjudged⟩

end Job

end TemporalMonitor
