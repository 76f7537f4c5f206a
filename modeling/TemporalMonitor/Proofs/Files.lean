import Mathlib.Tactic.SplitIfs
import TemporalMonitor.FileTree

/-!
# Files are found where they were put

A file that was written at a path is opened by this path with the same bytes, also after directories
have been made, and after it has been moved it is opened by its new path (`openNode_of_writeFile`,
`openNode_createDirectories`, `openNode_of_moveFile`).

All of them rest on one fact: a path leads to the same location in any tree that keeps the
directories (`KeepsDirectories`, `locate_of_keepsDirectories`). A location at which there is a
directory never gets a file, and is never left without a node, by what is done here.

The paths are those that do not end with a slash, such as those that end with a file name
(`Path.endsWithSlash_append`).
-/

namespace TemporalMonitor

/-! ### File names -/

namespace Path

theorem exists_join_eq (p q : Path) : ∃ front : String, p.join q = front ++ q := by
  rw [join]
  split_ifs
  · exact ⟨"", by simp⟩
  · exact ⟨p, rfl⟩
  · exact ⟨p ++ "/", rfl⟩

theorem pieces_cons (c : Char) (cs : List Char) :
    pieces (c :: cs) =
      if c = '/' then [] :: pieces cs else (pieces cs).modifyHead (List.cons c) := by
  rw [pieces, List.splitOn_cons_eq_if_modifyHead]
  simp [pieces]

/-- What stands behind the last slash is the last piece, and grows with the text. -/
theorem exists_pieces_append (cs : List Char) : ∃ before name, ∀ ext : List Char, '/' ∉ ext →
    pieces (cs ++ ext) = before ++ [name ++ ext] := by
  induction cs with
  | nil => exact ⟨[], [], fun ext hext ↦ List.splitOn_eq_singleton hext⟩
  | cons c cs ih =>
    obtain ⟨before, name, h⟩ := ih
    by_cases hc : c = '/'
    · refine ⟨[] :: before, name, fun ext hext ↦ ?_⟩
      rw [List.cons_append, pieces_cons, if_pos hc, h ext hext, List.cons_append]
    · cases before with
      | nil =>
        refine ⟨[], c :: name, fun ext hext ↦ ?_⟩
        rw [List.cons_append, pieces_cons, if_neg hc, h ext hext]
        rfl
      | cons first before =>
        refine ⟨(c :: first) :: before, name, fun ext hext ↦ ?_⟩
        rw [List.cons_append, pieces_cons, if_neg hc, h ext hext]
        rfl

theorem exists_segments_append (front ext : String) (hslash : '/' ∉ ext.toList) (hne : ext ≠ "") :
    ∃ before name, segments (front ++ ext) = before ++ [String.ofList (name ++ ext.toList)] := by
  obtain ⟨before, name, h⟩ := exists_pieces_append front.toList
  have hkeep : [name ++ ext.toList].filter (· ≠ []) = [name ++ ext.toList] :=
    List.filter_cons_of_pos (decide_eq_true (by simp [hne]))
  refine ⟨(before.filter (· ≠ [])).map String.ofList, name, ?_⟩
  rw [segments, String.toList_append, h ext.toList hslash, List.filter_append, hkeep,
    List.map_append]
  rfl

theorem getLast?_components {p : Path} {before : List String} {name : String}
    (h : p.segments = before ++ [name]) (hname : name ≠ ".") :
    p.components.getLast? = some name := by
  have hkeep : [name].filter (· ≠ ".") = [name] := List.filter_cons_of_pos (decide_eq_true hname)
  rw [components, h]
  cases before with
  | nil => simp [hname]
  | cons first before =>
    simp only [List.cons_append, List.filter_append, hkeep]
    split_ifs
    · exact List.getLast?_concat
    · exact List.getLast?_concat (l := first :: before.filter (· ≠ "."))

theorem splitExtension_append (name : List Char) :
    splitExtension (name ++ ".csv.gz".toList) = (name ++ ".csv".toList, some "gz".toList) := by
  have hsuffix : ((name ++ ".csv.gz".toList).reverse.takeWhile (· ≠ '.')).reverse =
      "gz".toList := by
    rw [List.reverse_append]
    rfl
  have hlength : (name ++ ".csv.gz".toList).length - "gz".toList.length - 1 = name.length + 4 := by
    rw [List.length_append]
    rfl
  rw [splitExtension, hsuffix, hlength, List.take_length_add_append]
  simp

/-- A compressed sheet is recognised by the extension of its name. -/
theorem fileExtension?_append (front : String) :
    fileExtension? (front ++ ".csv.gz") = some "gz" := by
  obtain ⟨before, name, hsegments⟩ := exists_segments_append front ".csv.gz" (by decide)
    (by decide)
  have hlength : 7 ≤ (String.ofList (name ++ ".csv.gz".toList)).length := by
    rw [String.length_ofList, List.length_append]
    exact Nat.le_add_left 7 name.length
  have hdot : String.ofList (name ++ ".csv.gz".toList) ≠ "." := fun h ↦ by
    rw [h] at hlength
    exact absurd hlength (by decide)
  have hdots : String.ofList (name ++ ".csv.gz".toList) ≠ ".." := fun h ↦ by
    rw [h] at hlength
    exact absurd hlength (by decide)
  rw [fileExtension?, fileName?, getLast?_components hsegments hdot]
  simp only [hdot, hdots, decide_false, Bool.or_false, Bool.false_eq_true, if_false,
    Option.bind_some, String.toList_ofList, splitExtension_append, Option.map_some]
  decide

theorem endsWithSlash_append (front : String) : endsWithSlash (front ++ ".csv.gz") = false := by
  rw [endsWithSlash, String.toList_append, List.getLast?_append]
  rfl

end Path

namespace FileTree

/-! ### Nodes -/

theorem lookup_filter_ne (nodes : List (Location × FileNode)) {loc here : Location}
    (h : here ≠ loc) : (nodes.filter (·.1 ≠ loc)).lookup here = nodes.lookup here := by
  induction nodes with
  | nil => rfl
  | cons node nodes ih =>
    by_cases hnode : node.1 = loc
    · have hne : (here == node.1) = false := by simpa [hnode] using h
      rw [List.filter_cons_of_neg (by simpa using hnode), ih, List.lookup_cons, hne]
    · rw [List.filter_cons_of_pos (by simpa using hnode), List.lookup_cons, List.lookup_cons, ih]

theorem node?_erase_of_ne (t : FileTree) {loc here : Location} (h : here ≠ loc) :
    (t.erase loc).node? here = t.node? here := by
  rw [node?, node?, erase, lookup_filter_ne _ h]

theorem lookup_filter_self (nodes : List (Location × FileNode)) (loc : Location) :
    (nodes.filter (·.1 ≠ loc)).lookup loc = none := by
  rw [List.lookup_eq_none_iff]
  intro node hnode
  have hne : node.1 ≠ loc := by simpa using (List.mem_filter.1 hnode).2
  simpa using hne.symm

/-- Taking a node away brings no other node to light. -/
theorem node?_of_erase {t : FileTree} {loc here : Location} {n : FileNode}
    (h : (t.erase loc).node? here = some n) : t.node? here = some n := by
  by_cases hne : here = loc
  · subst hne
    rw [node?, erase, lookup_filter_self] at h
    rw [node?]
    split_ifs at h ⊢
    exact h
  · rwa [node?_erase_of_ne t hne] at h

theorem node?_put_of_ne (t : FileTree) {loc here : Location} (h : here ≠ loc) (n : FileNode) :
    (t.put loc n).node? here = t.node? here := by
  have hne : (here == loc) = false := by simpa using h
  rw [node?, node?, put, List.lookup_append, lookup_filter_ne _ h, List.lookup_cons, hne]
  simp

theorem node?_put_self (t : FileTree) {loc : Location} (h : loc.isFixed = false) (n : FileNode) :
    (t.put loc n).node? loc = some n := by
  rw [node?, if_neg (Bool.eq_false_iff.1 h), put, List.lookup_append, lookup_filter_self]
  simp

theorem isFixed_eq_false {t : FileTree} {loc : Location} (h : t.node? loc ≠ some .directory) :
    loc.isFixed = false := by
  rw [← Bool.not_eq_true]
  exact fun hfixed ↦ h (if_pos hfixed)

/-! ### Paths in trees that keep the directories -/

/-- Where there was a directory there is one. -/
def KeepsDirectories (t t' : FileTree) : Prop :=
  ∀ loc, t.node? loc = some .directory → t'.node? loc = some .directory

/-- Where there was a node there is the same one. -/
def Extends (t t' : FileTree) : Prop := ∀ loc n, t.node? loc = some n → t'.node? loc = some n

theorem Extends.refl (t : FileTree) : t.Extends t := fun _ _ h ↦ h

theorem Extends.trans {t t' t'' : FileTree} (h : t.Extends t') (h' : t'.Extends t'') :
    t.Extends t'' :=
  fun loc n hn ↦ h' loc n (h loc n hn)

theorem extends_put {t : FileTree} {loc : Location} (h : t.node? loc = none) (n : FileNode) :
    t.Extends (t.put loc n) := by
  intro here n' hn'
  have hne : here ≠ loc := fun heq ↦ by simp [← heq, hn'] at h
  rw [node?_put_of_ne t hne, hn']

theorem keepsDirectories_put {t : FileTree} {loc : Location} (h : t.node? loc ≠ some .directory)
    (n : FileNode) : t.KeepsDirectories (t.put loc n) := by
  intro here hdir
  have hne : here ≠ loc := fun heq ↦ h (heq ▸ hdir)
  rw [node?_put_of_ne t hne, hdir]

theorem keepsDirectories_erase {t : FileTree} {loc : Location}
    (h : t.node? loc ≠ some .directory) : t.KeepsDirectories (t.erase loc) := by
  intro here hdir
  have hne : here ≠ loc := fun heq ↦ h (heq ▸ hdir)
  rw [node?_erase_of_ne t hne, hdir]

theorem walk_cons {t : FileTree} {here : Location} (h : t.node? here = some .directory)
    (name : String) (rest : List String) :
    t.walk here (name :: rest) =
      if name = "." then t.walk here rest
      else if name = ".." then t.walk here.parent rest
      else if maxName < name.utf8ByteSize then .error .nameTooLong
      else t.walk (here ++ [name]) rest := by
  rw [walk, h]
  rfl

theorem directory_of_walk {t : FileTree} {here loc : Location} {name : String}
    {rest : List String} (h : t.walk here (name :: rest) = .ok loc) :
    t.node? here = some .directory := by
  rw [walk] at h
  rcases hnode : t.node? here with _ | _ | _
  · rw [hnode] at h
    cases h
  · rw [hnode] at h
    cases h
  · rfl

theorem walk_of_keepsDirectories {t t' : FileTree} (h : t.KeepsDirectories t') {here loc : Location}
    {names : List String} (hwalk : t.walk here names = .ok loc) : t'.walk here names = .ok loc := by
  induction names generalizing here with
  | nil => exact hwalk
  | cons name rest ih =>
    have hdir := directory_of_walk hwalk
    rw [walk_cons hdir] at hwalk
    rw [walk_cons (h here hdir)]
    split_ifs at hwalk ⊢
    · exact ih hwalk
    · exact ih hwalk
    · exact ih hwalk

/-- **A path leads to the same location in a tree that keeps the directories.** -/
theorem locate_of_keepsDirectories {t t' : FileTree} (h : t.KeepsDirectories t') {p : Path}
    {loc : Location} (hlocate : t.locate p = .ok loc) : t'.locate p = .ok loc := by
  rw [locate] at hlocate ⊢
  split_ifs at hlocate ⊢ <;> exact walk_of_keepsDirectories h hlocate

/-! ### Opening, writing and moving files -/

section Files

variable {t t' : FileTree} {p q : Path} {bytes : List UInt8}

theorem resolve_eq_locate (hp : p.endsWithSlash = false) (t : FileTree) :
    t.resolve p = t.locate p := by
  rw [resolve, hp]
  cases t.locate p <;> rfl

/-- A path opens a file if it leads to the location of the file. -/
theorem openNode_eq_ok_iff (hp : p.endsWithSlash = false) {n : FileNode} :
    t.openNode p = .ok n ↔ ∃ loc, t.locate p = .ok loc ∧ t.node? loc = some n := by
  rw [openNode, resolve_eq_locate hp]
  cases t.locate p with
  | error e => simp [bind, Except.bind]
  | ok loc =>
    cases hnode : t.node? loc <;> simp [bind, Except.bind, hnode]

theorem openNode_of_extends (hp : p.endsWithSlash = false) (h : t.Extends t') {n : FileNode}
    (hopen : t.openNode p = .ok n) : t'.openNode p = .ok n := by
  obtain ⟨loc, hlocate, hnode⟩ := (openNode_eq_ok_iff hp).1 hopen
  exact (openNode_eq_ok_iff hp).2
    ⟨loc, locate_of_keepsDirectories (fun here ↦ h here .directory) hlocate, h loc n hnode⟩

/-- A file put where there is no directory is opened by the paths that lead there. -/
theorem openNode_put (hp : p.endsWithSlash = false) {loc : Location}
    (hlocate : t.locate p = .ok loc) (hnode : t.node? loc ≠ some .directory) (n : FileNode) :
    (t.put loc n).openNode p = .ok n :=
  (openNode_eq_ok_iff hp).2 ⟨loc,
    locate_of_keepsDirectories (keepsDirectories_put hnode n) hlocate,
    node?_put_self t (isFixed_eq_false hnode) n⟩

theorem writeFile_eq_ok_iff (hp : p.endsWithSlash = false) :
    t.writeFile p bytes = .ok t' ↔ ∃ loc, t.locate p = .ok loc ∧
      t.node? loc ≠ some .directory ∧ t' = t.put loc (.file bytes) := by
  rw [writeFile, resolve_eq_locate hp]
  cases t.locate p with
  | error e => simp [bind, Except.bind]
  | ok loc =>
    rcases hnode : t.node? loc with _ | _ | _ <;> simp [bind, Except.bind, hnode, eq_comm]

/-- **A file that was written is opened by its path.** -/
theorem openNode_of_writeFile (hp : p.endsWithSlash = false)
    (h : t.writeFile p bytes = .ok t') : t'.openNode p = .ok (.file bytes) := by
  obtain ⟨loc, hlocate, hnode, rfl⟩ := (writeFile_eq_ok_iff hp).1 h
  exact openNode_put hp hlocate hnode _

/-- A file that is there can be written. -/
theorem exists_writeFile_of_openNode (hp : p.endsWithSlash = false)
    (h : t.openNode p = .ok (.file bytes)) (content : List UInt8) :
    ∃ t', t.writeFile p content = .ok t' := by
  obtain ⟨loc, hlocate, hnode⟩ := (openNode_eq_ok_iff hp).1 h
  exact ⟨_, (writeFile_eq_ok_iff hp).2 ⟨loc, hlocate, by simp [hnode], rfl⟩⟩

theorem extends_of_createDirectory (h : t.createDirectory q = .ok t') : t.Extends t' := by
  rw [createDirectory] at h
  cases hlocate : t.locate q with
  | error e => simp [hlocate, bind, Except.bind] at h
  | ok loc =>
    cases hnode : t.node? loc with
    | some n => simp [hlocate, hnode, bind, Except.bind] at h
    | none =>
      simp only [hlocate, hnode, bind, Except.bind, Except.ok.injEq] at h
      subst h
      exact extends_put hnode .directory

theorem extends_ensureDirectory (t : FileTree) (q : Path) : t.Extends (t.ensureDirectory q).1 := by
  rw [ensureDirectory]
  cases h : t.createDirectory q with
  | ok t' => exact extends_of_createDirectory h
  | error e => exact Extends.refl t

theorem extends_createLineage (t : FileTree) (paths : List Path) :
    t.Extends (t.createLineage paths).1 := by
  induction paths generalizing t with
  | nil => exact Extends.refl t
  | cons q parents ih =>
    have hfirst := extends_ensureDirectory t q
    rw [createLineage]
    rcases hensure : t.ensureDirectory q with ⟨t₁, _ | e⟩
    · rwa [hensure] at hfirst
    · rw [hensure] at hfirst
      cases e with
      | missing =>
        have hparents := hfirst.trans (ih t₁)
        rcases hlineage : t₁.createLineage parents with ⟨t₂, _ | e⟩
        · rw [hlineage] at hparents
          simp only [hlineage]
          exact hparents.trans (extends_ensureDirectory t₂ q)
        · rw [hlineage] at hparents
          simp only [hlineage]
          exact hparents
      | _ => exact hfirst

/-- **Making directories leaves files where they are.** -/
theorem openNode_createDirectories (hp : p.endsWithSlash = false) {n : FileNode}
    (h : t.openNode p = .ok n) (q : Path) : (t.createDirectories q).1.openNode p = .ok n :=
  openNode_of_extends hp (extends_createLineage t q.lineage) h

/-- A file is moved to where its new path leads, which is not a directory. -/
theorem exists_of_moveFile (hp : p.endsWithSlash = false) (hq : q.endsWithSlash = false)
    (hopen : t.openNode p = .ok (.file bytes)) (h : t.moveFile p q = .ok t') :
    ∃ source target, t.locate p = .ok source ∧ t.node? source = some (.file bytes) ∧
      t.locate q = .ok target ∧ t.node? target ≠ some .directory ∧
      t' = (t.erase source).put target (.file bytes) := by
  obtain ⟨source, hsource, hfile⟩ := (openNode_eq_ok_iff hp).1 hopen
  rw [moveFile, resolve_eq_locate hp, resolve_eq_locate hq, hsource] at h
  cases htarget : t.locate q with
  | error e => simp [htarget, bind, Except.bind] at h
  | ok target =>
    refine ⟨source, target, hsource, hfile, rfl, ?_, ?_⟩
    · intro hdir
      simp [htarget, hfile, hdir, bind, Except.bind] at h
    · rcases hdir : t.node? target with _ | _ | _ <;> simp_all [bind, Except.bind]

/-- **A file that was moved is opened by its new path.** -/
theorem openNode_of_moveFile (hp : p.endsWithSlash = false) (hq : q.endsWithSlash = false)
    (hopen : t.openNode p = .ok (.file bytes)) (h : t.moveFile p q = .ok t') :
    t'.openNode q = .ok (.file bytes) := by
  obtain ⟨source, target, -, hfile, htarget, hnode, rfl⟩ := exists_of_moveFile hp hq hopen h
  -- what is moved is a file, so the way to the target is not touched
  have hkeeps : t.KeepsDirectories (t.erase source) :=
    keepsDirectories_erase (by rw [hfile]; simp)
  exact openNode_put hq (locate_of_keepsDirectories hkeeps htarget)
    (fun hdir ↦ hnode (node?_of_erase hdir)) _

end Files

end FileTree

end TemporalMonitor
