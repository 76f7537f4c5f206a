import TemporalMonitor.Command.Run
import TemporalMonitor.Proofs.ReadBack
import TemporalMonitor.Proofs.Spelling

/-!
# Annotated traces are kept apart

The name of an annotated trace starts with the position of its trace in the batch, and so no two
traces of a batch have the same output name, however many there are and whatever they are called
(`eq_of_traceName_eq`). Therefore no printer ever touches the file of another trace
(`outputs_kept_apart`).

A path that ends with a file name leads to a location that does, wherever the directories on the way
lead to (`FileTree.getLast?_of_locate`). A printer writes, makes directories and moves its file, and
by this nothing is lost or replaced but files of its own name (`FileTree.ChangesOnly`,
`TracePrinter.ChangesOwn`). That its file is a file, and not a directory that others need, is what
has to be carried through a run (`TracePrinter.HasFile`).
-/

namespace TemporalMonitor

open Text

/-! ### Names -/

/-- The name of an annotated trace tells the position of its trace. -/
theorem eq_of_traceName_eq {i j : Nat} {p q : Path} (h : traceName i p = traceName j q) : i = j :=
  selfDelimiting_padded 4 rfl (fun _ ↦ Nat.digitChar_ne '_' rfl) h

namespace Path

theorem slash_not_mem_of_mem_pieces {cs piece : List Char} (h : piece ∈ pieces cs) :
    '/' ∉ piece := by
  induction cs generalizing piece with
  | nil =>
    rw [List.mem_singleton.1 h]
    exact List.not_mem_nil
  | cons c cs ih =>
    rw [pieces_cons] at h
    split_ifs at h with hc
    · rcases List.mem_cons.1 h with rfl | h
      · exact List.not_mem_nil
      · exact ih h
    · cases hpieces : pieces cs with
      | nil => rw [hpieces] at h; cases h
      | cons first rest =>
        rw [hpieces] at h ih
        rcases List.mem_cons.1 h with rfl | h
        · exact List.not_mem_cons_of_ne_of_not_mem (Ne.symm hc) (ih List.mem_cons_self)
        · exact ih (List.mem_cons_of_mem first h)

theorem slash_not_mem_of_mem_segments {p : Path} {name : String} (h : name ∈ p.segments) :
    '/' ∉ name.toList := by
  obtain ⟨piece, hpiece, rfl⟩ := List.mem_map.1 h
  rw [String.toList_ofList]
  exact slash_not_mem_of_mem_pieces (List.mem_filter.1 hpiece).1

theorem mem_segments_of_mem_components {p : Path} {name : String} (h : name ∈ p.components) :
    name ∈ p.segments := by
  rw [components] at h
  cases hsegments : p.segments with
  | nil =>
    rw [hsegments] at h
    cases h
  | cons first rest =>
    have hrest : name ∈ rest.filter (· ≠ ".") → name ∈ first :: rest := fun h ↦
      List.mem_cons_of_mem first (List.mem_filter.1 h).1
    simp only [hsegments] at h
    split_ifs at h
    · exact hrest h
    · rcases List.mem_cons.1 h with rfl | h
      · exact List.mem_cons_self
      · exact hrest h

theorem slash_not_mem_of_fileName? {p : Path} {name : String} (h : p.fileName? = some name) :
    '/' ∉ name.toList := by
  rw [fileName?] at h
  cases hlast : p.components.getLast? with
  | none => simp [hlast] at h
  | some last =>
    simp only [hlast] at h
    split_ifs at h
    cases h
    exact slash_not_mem_of_mem_segments
      (mem_segments_of_mem_components (List.mem_of_getLast? hlast))

end Path

/-- Taking off an ending shortens the name. -/
theorem exists_toList_traceStem (path : Path) :
    ∃ n, (traceStem path).toList = (path.fileName?.getD "").toList.take n := by
  simp only [traceStem]
  split_ifs
  · exact ⟨_, String.toList_copy_dropEnd⟩
  · exact ⟨_, String.toList_copy_dropEnd⟩
  · exact ⟨_, String.toList_copy_dropEnd⟩
  · exact ⟨_, (List.take_length).symm⟩

theorem slash_not_mem_traceName (i : Nat) (path : Path) : '/' ∉ (traceName i path).toList := by
  obtain ⟨n, hstem⟩ := exists_toList_traceStem path
  have hname : '/' ∉ (path.fileName?.getD "").toList := by
    cases h : path.fileName? with
    | none => exact List.not_mem_nil
    | some name => exact Path.slash_not_mem_of_fileName? h
  have hdigits := not_mem_padded (fun _ ↦ Nat.digitChar_ne '/' rfl) 4 i
  rw [traceName, String.toList_append, String.toList_append, hstem]
  simp only [List.mem_append, not_or]
  exact ⟨⟨hdigits, by decide⟩, fun h ↦ hname (List.mem_of_mem_take h)⟩

/-! ### Locations -/

namespace Path

section Join

variable {name : String} (hslash : '/' ∉ name.toList) (hne : name ≠ "")

include hslash hne

theorem segments_of_slash_not_mem : segments name = [name] := by
  have hpieces : pieces name.toList = [name.toList] := List.splitOn_eq_singleton hslash
  have hchars : name.toList ≠ [] := by simpa using hne
  rw [segments, hpieces]
  simp [hchars]

theorem segments_append_slash (front : String) :
    segments (front ++ "/" ++ name) = segments front ++ [name] := by
  have hpieces : pieces (front ++ "/" ++ name).toList =
      pieces front.toList ++ pieces name.toList := by
    rw [String.toList_append, String.toList_append, List.append_assoc]
    exact List.splitOn_append_cons_self front.toList name.toList
  rw [← segments_of_slash_not_mem hslash hne, segments, hpieces, List.filter_append,
    List.map_append]
  rfl

/-- A name without a slash is the last one on the way. -/
theorem exists_segments_join (dir : Path) :
    ∃ before, (dir.join name).segments = before ++ [name] := by
  rw [join]
  split_ifs with hfirst hlast
  · exact ⟨[], segments_of_slash_not_mem hslash hne⟩
  · obtain ⟨cs, hcs⟩ := List.getLast?_eq_some_iff.1 (beq_iff_eq.1 hlast)
    obtain rfl : dir = String.ofList cs ++ "/" := String.toList_injective (by simp [hcs])
    exact ⟨_, segments_append_slash hslash hne (String.ofList cs)⟩
  · exact ⟨_, segments_append_slash hslash hne dir⟩

end Join

end Path

namespace FileTree

variable {t t' t'' : FileTree} {p q : Path} {name : String} {bytes : List UInt8}

theorem getLast?_of_walk (hdot : name ≠ ".") (hdots : name ≠ "..") {here loc : Location}
    {before : List String} (h : t.walk here (before ++ [name]) = .ok loc) :
    loc.getLast? = some name := by
  induction before generalizing here with
  | nil =>
    rw [List.nil_append, walk_cons (directory_of_walk h), if_neg hdot, if_neg hdots] at h
    split_ifs at h
    cases h
    exact List.getLast?_concat
  | cons first before ih =>
    rw [List.cons_append, walk_cons (directory_of_walk h)] at h
    split_ifs at h
    · exact ih h
    · exact ih h
    · exact ih h

/-- A path that ends with a file name leads to a location that does. -/
theorem getLast?_of_locate {dir : Path} (hslash : '/' ∉ name.toList) (hne : name ≠ "")
    (hdot : name ≠ ".") (hdots : name ≠ "..") {loc : Location}
    (h : t.locate (dir.join name) = .ok loc) : loc.getLast? = some name := by
  obtain ⟨before, hsegments⟩ := Path.exists_segments_join hslash hne dir
  rw [locate, hsegments] at h
  split_ifs at h
  · exact getLast?_of_walk hdot hdots h
  · exact getLast?_of_walk hdot hdots h

/-! ### Changes to files of one name -/

/-- Nothing is lost or replaced but files with the given name. -/
def ChangesOnly (name : String) (t t' : FileTree) : Prop :=
  ∀ loc n, t.node? loc = some n →
    t'.node? loc = some n ∨ n ≠ .directory ∧ loc.getLast? = some name

namespace ChangesOnly

theorem of_extends (h : t.Extends t') : ChangesOnly name t t' :=
  fun loc n hn ↦ .inl (h loc n hn)

theorem trans (h : ChangesOnly name t t') (h' : ChangesOnly name t' t'') :
    ChangesOnly name t t'' :=
  fun loc n hn ↦ (h loc n hn).elim (h' loc n) .inr

/-- A file with another name is opened as before. -/
theorem openNode (h : ChangesOnly name t t') (hq : q.endsWithSlash = false)
    (hlast : ∀ loc, t.locate q = .ok loc → loc.getLast? ≠ some name) {n : FileNode}
    (hopen : t.openNode q = .ok n) : t'.openNode q = .ok n := by
  have hkeeps : t.KeepsDirectories t' := fun loc hdir ↦
    (h loc .directory hdir).resolve_right fun hfile ↦ hfile.1 rfl
  obtain ⟨loc, hlocate, hnode⟩ := (openNode_eq_ok_iff hq).1 hopen
  exact (openNode_eq_ok_iff hq).2 ⟨loc, locate_of_keepsDirectories hkeeps hlocate,
    (h loc n hnode).resolve_right fun hfile ↦ hlast loc hlocate hfile.2⟩

end ChangesOnly

/-- A tree that is the same at all other locations. -/
theorem changesOnly_of_ne {loc : Location} (hnode : t.node? loc ≠ some .directory)
    (hlast : loc.getLast? = some name) (h : ∀ here, here ≠ loc → t'.node? here = t.node? here) :
    ChangesOnly name t t' := by
  intro here n hn
  by_cases heq : here = loc
  · subst heq
    exact .inr ⟨fun hdir ↦ hnode (hdir ▸ hn), hlast⟩
  · exact .inl ((h here heq).trans hn)

theorem changesOnly_of_writeFile (hp : p.endsWithSlash = false)
    (hlast : ∀ loc, t.locate p = .ok loc → loc.getLast? = some name)
    (h : t.writeFile p bytes = .ok t') : ChangesOnly name t t' := by
  obtain ⟨loc, hlocate, hnode, rfl⟩ := (writeFile_eq_ok_iff hp).1 h
  exact changesOnly_of_ne hnode (hlast loc hlocate) fun here hne ↦ node?_put_of_ne t hne _

theorem changesOnly_of_moveFile (hp : p.endsWithSlash = false) (hq : q.endsWithSlash = false)
    (hsource : ∀ loc, t.locate p = .ok loc → loc.getLast? = some name)
    (htarget : ∀ loc, t.locate q = .ok loc → loc.getLast? = some name)
    (hopen : t.openNode p = .ok (.file bytes)) (h : t.moveFile p q = .ok t') :
    ChangesOnly name t t' := by
  obtain ⟨source, target, hp', hfile, hq', hnode, rfl⟩ := exists_of_moveFile hp hq hopen h
  have herase : ChangesOnly name t (t.erase source) :=
    changesOnly_of_ne (by rw [hfile]; simp) (hsource source hp') fun here hne ↦
      node?_erase_of_ne t hne
  have hput : ChangesOnly name (t.erase source) ((t.erase source).put target (.file bytes)) :=
    changesOnly_of_ne (fun hdir ↦ hnode (node?_of_erase hdir)) (htarget target hq')
      fun here hne ↦ node?_put_of_ne _ hne _
  exact herase.trans hput

end FileTree

/-! ### What a printer changes -/

namespace TracePrinter

variable {p p' : TracePrinter} {d d' d'' : Desk}

theorem slash_not_mem_fileName (hname : '/' ∉ p.name.toList) : '/' ∉ p.fileName.toList := by
  rw [fileName, String.toList_append, List.mem_append, not_or]
  exact ⟨hname, by decide⟩

theorem getLast?_of_locate_destination (hname : '/' ∉ p.name.toList) (outcome : Option Outcome)
    {t : FileTree} {loc : Location} (h : t.locate (p.destination outcome) = .ok loc) :
    loc.getLast? = some p.fileName := by
  have hne : ∀ s : String, s.length < 7 → p.fileName ≠ s := by
    rintro s hs rfl
    rw [fileName, String.length_append] at hs
    exact absurd (Nat.lt_of_le_of_lt (Nat.le_add_left 7 _) hs) (Nat.lt_irrefl 7)
  have hlast : ∀ dir : Path, t.locate (dir.join p.fileName) = .ok loc →
      loc.getLast? = some p.fileName := fun dir ↦
    FileTree.getLast?_of_locate (slash_not_mem_fileName hname) (hne "" (by decide))
      (hne "." (by decide)) (hne ".." (by decide))
  cases outcome with
  | none => exact hlast p.dir h
  | some o => exact hlast (p.dir.join o.folder) h

/-- If a file is open, then it is at the path of the printer. -/
def HasFile (p : TracePrinter) (d : Desk) : Prop :=
  ∀ w, d.writer = some w → ∃ bytes, d.tree.openNode p.path = .ok (.file bytes)

theorem hasFile_of_writer_eq_none (h : d.writer = none) : p.HasFile d := by
  intro w hw
  rw [h] at hw
  cases hw

/-- Between two desks the printer changes nothing but its own file. -/
def ChangesOwn (p : TracePrinter) (d d' : Desk) : Prop :=
  p.HasFile d → FileTree.ChangesOnly p.fileName d.tree d'.tree ∧ p.HasFile d'

namespace ChangesOwn

theorem refl (p : TracePrinter) (d : Desk) : p.ChangesOwn d d :=
  fun h ↦ ⟨.of_extends (.refl d.tree), h⟩

theorem trans (h : p.ChangesOwn d d') (h' : p.ChangesOwn d' d'') : p.ChangesOwn d d'' := by
  intro hd
  obtain ⟨hfirst, hd'⟩ := h hd
  obtain ⟨hsecond, hd''⟩ := h' hd'
  exact ⟨hfirst.trans hsecond, hd''⟩

end ChangesOwn

section OwnFile

variable (hname : '/' ∉ p.name.toList)

include hname

theorem changesOnly_of_writeFile_path {t t' : FileTree} {bytes : List UInt8}
    (h : t.writeFile p.path bytes = .ok t') : FileTree.ChangesOnly p.fileName t t' :=
  FileTree.changesOnly_of_writeFile (p.endsWithSlash_destination none)
    (fun _ ↦ getLast?_of_locate_destination hname none) h

theorem changesOnly_close (d : Desk) :
    FileTree.ChangesOnly p.fileName d.tree (d.close p.path).tree := by
  rw [Desk.close]
  cases hw : d.writer with
  | none => exact .of_extends (.refl d.tree)
  | some w =>
    cases htree : d.tree.writeFile p.path (Gzip.encode w.bytes) with
    | error e =>
      simp only [htree]
      exact .of_extends (.refl d.tree)
    | ok tree =>
      simp only [htree]
      exact changesOnly_of_writeFile_path hname htree

theorem changesOwn_close (d : Desk) : p.ChangesOwn d (d.close p.path) :=
  fun _ ↦ ⟨changesOnly_close hname d, hasFile_of_writer_eq_none (d.writer_close p.path)⟩

theorem changesOwn_init (d : Desk) : p.ChangesOwn d (p.init d).2 := by
  cases htree : d.tree.writeFile p.path [] with
  | error e =>
    rw [init_of_writeFile_eq_error htree]
    exact .refl p d
  | ok tree =>
    have hopen := FileTree.openNode_of_writeFile (p.endsWithSlash_destination none) htree
    rw [init_of_writeFile_eq_ok htree]
    exact fun _ ↦ ⟨changesOnly_of_writeFile_path hname htree, fun _ _ ↦ ⟨[], hopen⟩⟩

theorem changesOwn_step (j : Judged) (d : Desk) :
    p.ChangesOwn d (p.observer.step j d).2 := by
  simp only [observer, trace]
  cases hw : d.writer with
  | none => exact .refl p d
  | some w =>
    cases hrow : p.row j.before.step j.state j.after with
    | error e => exact .refl p d
    | ok cells =>
      simp only [Except.map]
      rcases hwrite : w.write (fields cells) with ⟨w', _ | e⟩
      · exact fun hd ↦ ⟨.of_extends (.refl d.tree), fun _ _ ↦ hd w hw⟩
      · have hsame : p.ChangesOwn d { d with writer := some w' } := fun hd ↦
          ⟨.of_extends (.refl d.tree), fun _ _ ↦ hd w hw⟩
        exact hsame.trans (changesOwn_close hname _)

theorem changesOwn_finalize (outcome : Outcome) (d : Desk) :
    p.ChangesOwn d (p.finalize outcome d).2 := by
  have hpath : p.path.endsWithSlash = false := p.endsWithSlash_destination none
  intro hd
  refine ⟨?_, hasFile_of_writer_eq_none (p.writer_finalize outcome d)⟩
  rw [finalize]
  cases hw : d.writer with
  | none => exact .of_extends (.refl d.tree)
  | some w =>
    obtain ⟨old, hold⟩ := hd w hw
    have hclose := changesOnly_close hname d
    have hopen := FileTree.openNode_createDirectories hpath (openNode_close hw hold)
      (p.dir.join outcome.folder)
    have hmade : FileTree.ChangesOnly p.fileName (d.close p.path).tree
        ((d.close p.path).tree.createDirectories (p.dir.join outcome.folder)).1 :=
      .of_extends (FileTree.extends_createLineage _ (p.dir.join outcome.folder).lineage)
    rcases hfolder : (d.close p.path).tree.createDirectories (p.dir.join outcome.folder) with
      ⟨tree, _ | e⟩
    · rw [hfolder] at hopen hmade
      simp only [hfolder]
      cases hmove : tree.moveFile p.path ((p.dir.join outcome.folder).join p.fileName) with
      | error e => exact hclose.trans hmade
      | ok tree' =>
        exact (hclose.trans hmade).trans (FileTree.changesOnly_of_moveFile hpath
          (p.endsWithSlash_destination (some outcome))
          (fun _ ↦ getLast?_of_locate_destination hname none)
          (fun _ ↦ getLast?_of_locate_destination hname (some outcome)) hopen hmove)
    · rw [hfolder] at hmade
      simp only [hfolder]
      exact hclose.trans hmade

theorem changesOwn_tellSteps (judged : List Judged) (d : Desk) :
    p.ChangesOwn d (p.observer.tellSteps judged d).2 := by
  induction judged generalizing d with
  | nil => exact .refl p d
  | cons j judged ih => exact (changesOwn_step hname j d).trans (ih (p.observer.step j d).2)

theorem changesOwn_tellEnd {ε : Type} (outcome : Except ε Outcome) (d : Desk) :
    p.ChangesOwn d (p.observer.tellEnd outcome d).2 := by
  cases outcome with
  | ok o => exact changesOwn_finalize hname o d
  | error e => exact changesOwn_close hname d

end OwnFile

end TracePrinter

/-! ### Batches -/

namespace Monitor

variable {α ε ω : Type} {perform : Statistics → α → ω → Performance ε × ω}

/-- Items at the end are performed in the world that those before have left, or not at all. -/
theorem world_performAll_append (items later : List α) (i : Nat) (stats : Statistics) (world : ω) :
    (performAll perform i stats (items ++ later) world).2 =
        (performAll perform i stats items world).2 ∨
      ∃ i' stats', (performAll perform i stats (items ++ later) world).2 =
        (performAll perform i' stats' later (performAll perform i stats items world).2).2 := by
  induction items generalizing i stats world with
  | nil => exact .inr ⟨i, stats, rfl⟩
  | cons a items ih =>
    rcases hperform : perform stats a world with ⟨⟨e | o, log⟩, world'⟩
    · left
      simp only [List.cons_append, performAll, hperform]
    · simp only [List.cons_append, performAll, hperform]
      exact ih (i + 1) _ world'

end Monitor

namespace TracePrinter

variable {p p' : TracePrinter} {d d' d'' : Desk}

/-- The files that a printer may leave behind are as they were. -/
def Spared (p : TracePrinter) (d d' : Desk) : Prop :=
  ∀ outcome n, d.tree.openNode (p.destination outcome) = .ok n →
    d'.tree.openNode (p.destination outcome) = .ok n

theorem Spared.refl (p : TracePrinter) (d : Desk) : p.Spared d d := fun _ _ ↦ id

theorem Spared.trans (h : p.Spared d d') (h' : p.Spared d' d'') : p.Spared d d'' :=
  fun outcome n hn ↦ h' outcome n (h outcome n hn)

theorem spared_of_changesOwn (hname : '/' ∉ p'.name.toList) (hne : p.fileName ≠ p'.fileName)
    (h : p.ChangesOwn d d') (hd : d.writer = none) : p'.Spared d d' := by
  intro outcome n hopen
  obtain ⟨hchanges, -⟩ := h (hasFile_of_writer_eq_none hd)
  refine hchanges.openNode (p'.endsWithSlash_destination outcome) ?_ hopen
  intro loc hloc hlast
  rw [getLast?_of_locate_destination hname outcome hloc] at hlast
  exact hne (Option.some.inj hlast).symm

end TracePrinter

namespace Job

variable {c : Catalogue} {monitor : Monitor} {tree : FileTree}

/-- The jobs of a batch, one for each file of a list. -/
def ofFiles (dir : Path) (files : List Path) : List Job :=
  files.zipIdx.map fun (file, i) ↦ ⟨dir, traceName i file, file⟩

/-- The desk after the first jobs of a batch, up to one that fails. -/
def deskAfter (c : Catalogue) (monitor : Monitor) (jobs : List Job) (tree : FileTree) (k : Nat) :
    Desk :=
  (monitor.traces ((jobs.take k).map (item c)) ⟨tree, none⟩).2

theorem writer_deskAfter (jobs : List Job) (k : Nat) :
    (deskAfter c monitor jobs tree k).writer = none :=
  writer_traces (jobs.take k) monitor tree

theorem changesOwn_told {job : Job} (hname : '/' ∉ job.name.toList) (d : Desk)
    (judged : List Judged) : (job.printer c).ChangesOwn d (job.told c d judged) :=
  (TracePrinter.changesOwn_init hname d).trans (TracePrinter.changesOwn_tellSteps hname judged _)

/-- **A job changes nothing but its own file.** -/
theorem changesOwn_performTraced {job : Job} (hname : '/' ∉ job.name.toList) (monitor : Monitor)
    (stats : Statistics) (d : Desk) :
    (job.printer c).ChangesOwn d (monitor.performTraced stats (job.item c) d).2 := by
  rw [job.performTraced_item monitor stats d]
  exact (changesOwn_told hname d _).trans (TracePrinter.changesOwn_tellEnd hname _ _)

/-- Later jobs are performed at the desk that those before have left, or not at all. -/
theorem deskAfter_of_le (jobs : List Job) {k l : Nat} (hkl : k ≤ l) :
    deskAfter c monitor jobs tree l = deskAfter c monitor jobs tree k ∨
      ∃ i stats, deskAfter c monitor jobs tree l =
        (Monitor.performAll monitor.performTraced i stats (((jobs.take l).drop k).map (item c))
          (deskAfter c monitor jobs tree k)).2 := by
  have hdesk : ∀ n, deskAfter c monitor jobs tree n =
      (Monitor.performAll monitor.performTraced 0 monitor.statistics.reset
        ((jobs.take n).map (item c)) ⟨tree, none⟩).2 := fun _ ↦ rfl
  have hsplit : (jobs.take l).map (item c) =
      (jobs.take k).map (item c) ++ ((jobs.take l).drop k).map (item c) := by
    have htake : (jobs.take l).take k = jobs.take k := by rw [List.take_take, Nat.min_eq_left hkl]
    rw [← List.map_append, ← htake, List.take_append_drop]
  rw [hdesk l, hdesk k, hsplit]
  exact Monitor.world_performAll_append _ _ 0 _ _

/-- Jobs with other names leave the files of a job alone. -/
theorem spared_deskAfter {jobs : List Job} {job' : Job} (hname' : '/' ∉ job'.name.toList)
    {k l : Nat} (hkl : k ≤ l)
    (hothers : ∀ job ∈ (jobs.take l).drop k, '/' ∉ job.name.toList ∧
      (job.printer c).fileName ≠ (job'.printer c).fileName) :
    (job'.printer c).Spared (deskAfter c monitor jobs tree k)
      (deskAfter c monitor jobs tree l) := by
  -- between the jobs no file is open, and performing one of them keeps it so
  have hperform : ∀ a ∈ ((jobs.take l).drop k).map (item c), ∀ stats d, d.writer = none →
      (monitor.performTraced stats a d).2.writer = none ∧
        (job'.printer c).Spared d (monitor.performTraced stats a d).2 := by
    intro a ha stats d hd
    obtain ⟨job, hjob, rfl⟩ := List.mem_map.1 ha
    obtain ⟨hname, hne⟩ := hothers job hjob
    refine ⟨?_, TracePrinter.spared_of_changesOwn hname' hne
      (changesOwn_performTraced hname monitor stats d) hd⟩
    rw [job.performTraced_item monitor stats d]
    exact (job.printer c).writer_tellEnd _ _
  have hlater := Monitor.related_performAll (R := fun d d' : Desk ↦ d.writer = none →
    d'.writer = none ∧ (job'.printer c).Spared d d') (fun d hd ↦ ⟨hd, .refl _ d⟩)
    (fun _ _ _ h h' hd ↦ ⟨(h' (h hd).1).1, (h hd).2.trans (h' (h hd).1).2⟩) hperform
  rcases deskAfter_of_le jobs hkl with hsame | ⟨i, stats, hafter⟩
  · rw [hsame]
    exact .refl _ _
  · rw [hafter]
    exact (hlater i stats _ (writer_deskAfter jobs k)).2

theorem name_of_getElem? {dir : Path} {files : List Path} {i : Nat} {job : Job}
    (h : (ofFiles dir files)[i]? = some job) : job.name = traceName i job.file := by
  rw [ofFiles, List.getElem?_map, List.getElem?_zipIdx] at h
  cases hfile : files[i]? with
  | none => simp [hfile] at h
  | some file =>
    simp only [hfile, Option.map_some, Nat.zero_add, Option.some.injEq] at h
    rw [← h]

/-- The files of a batch of annotated traces are kept apart, whatever is at their paths before. -/
structure KeptApart (c : Catalogue) (monitor : Monitor) (jobs : List Job) (tree : FileTree) :
    Prop where
  /-- The paths of two jobs never lead to the same location. -/
  apart : ∀ (i j : Nat) (job job' : Job), jobs[i]? = some job → jobs[j]? = some job' → i ≠ j →
    ∀ (t : FileTree) outcome outcome' loc,
      t.locate ((job.printer c).destination outcome) = .ok loc →
      t.locate ((job'.printer c).destination outcome') ≠ .ok loc
  /-- While a job is performed the files of every other job stay as they are, from the moment at
  which its own file is made, whatever states it is told of. -/
  during : ∀ (i j : Nat) (job job' : Job), jobs[i]? = some job → jobs[j]? = some job' → i ≠ j →
    ∀ judged, (job'.printer c).Spared (deskAfter c monitor jobs tree i)
      (job.told c (deskAfter c monitor jobs tree i) judged)
  /-- So they do when other jobs have ended and their files have been moved. -/
  between : ∀ (j : Nat) (job' : Job), jobs[j]? = some job' → ∀ k l, k ≤ l → l ≤ j ∨ j < k →
    (job'.printer c).Spared (deskAfter c monitor jobs tree k) (deskAfter c monitor jobs tree l)

theorem fileName_ne {dir : Path} {files : List Path} {i j : Nat} {job job' : Job}
    (h : (ofFiles dir files)[i]? = some job) (h' : (ofFiles dir files)[j]? = some job')
    (hij : i ≠ j) : (job.printer c).fileName ≠ (job'.printer c).fileName := by
  intro heq
  have hnames : job.name = job'.name := (String.append_left_inj _).1 heq
  rw [name_of_getElem? h, name_of_getElem? h'] at hnames
  exact hij (eq_of_traceName_eq hnames)

theorem slash_not_mem_name {dir : Path} {files : List Path} {i : Nat} {job : Job}
    (h : (ofFiles dir files)[i]? = some job) : '/' ∉ job.name.toList := by
  rw [name_of_getElem? h]
  exact slash_not_mem_traceName i job.file

theorem length_ofFiles (dir : Path) (files : List Path) :
    (ofFiles dir files).length = files.length := by
  rw [ofFiles, List.length_map, List.length_zipIdx]

theorem keptApart_ofFiles (c : Catalogue) (monitor : Monitor) (dir : Path) (files : List Path)
    (tree : FileTree) : KeptApart c monitor (ofFiles dir files) tree where
  apart i j job job' hi hj hij t outcome outcome' loc hloc hloc' := by
    have hlast := TracePrinter.getLast?_of_locate_destination (slash_not_mem_name hi) outcome hloc
    rw [TracePrinter.getLast?_of_locate_destination (slash_not_mem_name hj) outcome' hloc'] at hlast
    exact fileName_ne hi hj hij (Option.some.inj hlast).symm
  during i j job job' hi hj hij judged :=
    TracePrinter.spared_of_changesOwn (slash_not_mem_name hj) (fileName_ne hi hj hij)
      (changesOwn_told (slash_not_mem_name hi) _ judged) (writer_deskAfter _ i)
  between j job' hj k l hkl hout := by
    refine spared_deskAfter (slash_not_mem_name hj) hkl fun job hjob ↦ ?_
    obtain ⟨n, hn⟩ := List.mem_iff_getElem?.1 hjob
    rw [List.getElem?_drop, List.getElem?_take] at hn
    split_ifs at hn with hlt
    exact ⟨slash_not_mem_name hn, fileName_ne hn hj (by omega)⟩

end Job

/-- The files after a command that writes annotated traces are those after the last job. -/
theorem tree_trace {path : Path} {options : TraceOptions} {e : Execution} {selection : Selection}
    {m : MonitoredProperties}
    (hselection : selectionOf options.properties options.all = .ok selection)
    (hload : Properties.load e.tree path selection = .ok m)
    (hdir : (e.tree.createDirectories options.output).2 = none) :
    (trace path options e).tree =
      (Job.deskAfter m.catalogue ⟨m.oracle, {}⟩
        (Job.ofFiles options.output (traceFiles e.tree options.traces))
        (e.tree.createDirectories options.output).1
        (traceFiles e.tree options.traces).length).tree := by
  rcases hmade : e.tree.createDirectories options.output with ⟨tree, _ | reason⟩
  · rw [Job.deskAfter, List.take_of_length_le (Job.length_ofFiles _ _).le, Job.ofFiles,
      List.map_map]
    simp only [trace, hselection, Execution.withProperties, Execution.logged, Execution.note, hload,
      hmade]
    split <;> rfl
  · rw [hmade] at hdir
    cases hdir

/-- **Output names are unique in a batch of any size**, and so the files of its annotated traces are
kept apart, however often a file is listed. -/
theorem outputs_kept_apart :
    (∀ (i j : Nat) (p q : Path), i ≠ j → traceName i p ≠ traceName j q ∧
      traceName i p ++ ".csv.gz" ≠ traceName j q ++ ".csv.gz") ∧
    ∀ (path : Path) (options : TraceOptions) (e : Execution) (selection : Selection)
      (m : MonitoredProperties), selectionOf options.properties options.all = .ok selection →
      Properties.load e.tree path selection = .ok m →
      (e.tree.createDirectories options.output).2 = none →
        let files := traceFiles e.tree options.traces
        let jobs := Job.ofFiles options.output files
        let tree := (e.tree.createDirectories options.output).1
        Job.KeptApart m.catalogue ⟨m.oracle, {}⟩ jobs tree ∧
        (trace path options e).tree =
          (Job.deskAfter m.catalogue ⟨m.oracle, {}⟩ jobs tree files.length).tree := by
  refine ⟨fun i j p q hij ↦ ⟨fun h ↦ hij (eq_of_traceName_eq h), fun h ↦ ?_⟩, ?_⟩
  · exact hij (eq_of_traceName_eq ((String.append_left_inj _).1 h))
  · intro path options e selection m hselection hload hdir files jobs tree
    exact ⟨Job.keptApart_ofFiles _ _ _ files tree, tree_trace hselection hload hdir⟩

/-- A file that is listed twice: what the first job leaves behind is there in the end, and so is
what the second one does. -/
theorem outputs_kept_apart_twice :
    let properties := "[[],[[\"p\",\x7b\"always\":\x7b\"var\":\"a\"\x7d\x7d]]]"
    let e : Execution := { tree := ⟨[(["p.json"], .file (Utf8.ofString properties)),
      (["t.csv"], .file (Utf8.ofString "a\n1\n"))]⟩ }
    let m : MonitoredProperties := ⟨.ofFormulas [] [.always (.var 0)], ⟨["a"], ["p"], ["p"]⟩⟩
    let options : TraceOptions := ⟨["t.csv", "t.csv"], [], true, "out"⟩
    let jobs := Job.ofFiles "out" ["t.csv", "t.csv"]
    let tree := (e.tree.createDirectories "out").1
    let first := (Job.deskAfter m.catalogue ⟨m.oracle, {}⟩ jobs tree 1).tree
    traceName 12345 "6.csv" ≠ traceName 1234 "56.csv" ∧
      traceFiles e.tree options.traces = ["t.csv", "t.csv"] ∧
      Properties.load e.tree "p.json" .all = .ok m ∧ (e.tree.createDirectories "out").2 = none ∧
      (∃ n, first.openNode "out/success/0000_t.csv.gz" = .ok n ∧
        (trace "p.json" options e).tree.openNode "out/success/0000_t.csv.gz" = .ok n) ∧
      ((trace "p.json" options e).tree.openNode "out/success/0001_t.csv.gz").isOk := by
  intro properties e m options jobs tree first
  have hfiles : traceFiles e.tree options.traces = ["t.csv", "t.csv"] := by decide +kernel
  have hload : Properties.load e.tree "p.json" .all = .ok m := by decide +kernel
  have hdir : (e.tree.createDirectories "out").2 = none := by decide +kernel
  obtain ⟨hnames, hbatch⟩ := outputs_kept_apart
  obtain ⟨hapart, htree⟩ := hbatch "p.json" options e .all m rfl hload hdir
  rw [hfiles] at hapart htree
  have hpath : (Job.printer m.catalogue ⟨"out", traceName 0 "t.csv", "t.csv"⟩).destination
      (some (.verified [true])) = "out/success/0000_t.csv.gz" := by decide +kernel
  have hfirst : (first.openNode "out/success/0000_t.csv.gz").isOk := by decide +kernel
  obtain ⟨n, hn⟩ : ∃ n, first.openNode "out/success/0000_t.csv.gz" = .ok n := by
    cases hnode : first.openNode "out/success/0000_t.csv.gz" with
    | error e => rw [hnode] at hfirst; cases hfirst
    | ok n => exact ⟨n, rfl⟩
  refine ⟨(hnames _ _ _ _ (by decide)).1, hfiles, hload, hdir, ⟨n, hn, ?_⟩, by decide +kernel⟩
  have hkept := hapart.between 0 _ rfl 1 2 (by decide) (.inr (by decide))
    (some (.verified [true])) n
  rw [hpath] at hkept
  rw [htree]
  exact hkept hn

end TemporalMonitor
