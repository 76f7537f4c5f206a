import Mathlib.Data.List.Forall2
import TemporalMonitor.Properties.Load

/-!
# What building properties gives

Indexing replaces the variables of the formulas of a file by positions, one after the other, in a
signature that grows on the way. Two facts describe it, for one variable, one formula and a whole
list of them alike:

* the signature is extended by the names that are met, each at its first occurrence
  (`Signature.extend`), so positions that were given stay what they are;
* the signature reads the indexed formula back as the formula it stems from (`Signature.Reads`); in
  particular its positions lie within the signature.

The file alone decides about the signature and the indexed formulas. The selection only chooses
among them, by name, so what `build` gives can be said in one statement for all selections
(`build_eq_ok_iff`).
-/

namespace TemporalMonitor

namespace Signature

/-! ### Extending a signature -/

/-- The signature with names added at its end, each unless it is there already. -/
def extend (s : Signature) (names : List String) : Signature :=
  names.foldl (fun s name ↦ if name ∈ s then s else s ++ [name]) s

@[simp]
theorem extend_nil (s : Signature) : s.extend [] = s :=
  rfl

theorem extend_cons (s : Signature) (name : String) (names : List String) :
    s.extend (name :: names) = (s.extend [name]).extend names :=
  rfl

theorem extend_append (s : Signature) (names later : List String) :
    s.extend (names ++ later) = (s.extend names).extend later :=
  List.foldl_append

theorem extend_singleton_of_mem {s : Signature} {name : String} (h : name ∈ s) :
    s.extend [name] = s :=
  if_pos h

theorem extend_singleton_of_not_mem {s : Signature} {name : String} (h : name ∉ s) :
    s.extend [name] = s ++ [name] :=
  if_neg h

theorem isPrefix_extend (s : Signature) (names : List String) : s <+: s.extend names := by
  induction names generalizing s with
  | nil => exact List.prefix_rfl
  | cons name names ih =>
    rw [extend_cons]
    refine List.IsPrefix.trans ?_ (ih (s.extend [name]))
    by_cases h : name ∈ s
    · rewrite [extend_singleton_of_mem h]
      exact List.prefix_rfl
    · rw [extend_singleton_of_not_mem h]
      exact List.prefix_append s [name]

theorem nodup_extend {s : Signature} (hs : s.Nodup) (names : List String) :
    (s.extend names).Nodup := by
  induction names generalizing s with
  | nil => exact hs
  | cons name names ih =>
    rw [extend_cons]
    refine ih ?_
    by_cases h : name ∈ s
    · rwa [extend_singleton_of_mem h]
    · rw [extend_singleton_of_not_mem h]
      refine List.nodup_append.2 ⟨hs, List.pairwise_singleton _ name, ?_⟩
      rintro other hother _ hname rfl
      exact h (List.mem_singleton.1 hname ▸ hother)

/-! ### Positions and names -/

theorem name?_of_isPrefix {s s' : Signature} (h : s <+: s') {i : Nat} {name : String}
    (hi : s.name? i = some name) : s'.name? i = some name := by
  obtain ⟨rest, rfl⟩ := h
  exact (List.getElem?_append_left (List.getElem?_eq_some_iff.1 hi).1).trans hi

/-- The first position of a name leads back to it. -/
theorem name?_of_idxOf? {s : Signature} {name : String} {i : Nat} (h : s.idxOf? name = some i) :
    s.name? i = some name := by
  obtain ⟨hi, hname, -⟩ := List.findIdx?_eq_some_iff_getElem.1 h
  rw [name?, List.getElem?_eq_getElem hi, beq_iff_eq.1 hname]

/-- Where no name is repeated, a position is the first one of its name. -/
theorem idxOf?_of_name? {s : Signature} (hs : s.Nodup) {name : String} {i : Nat}
    (h : s.name? i = some name) : s.idxOf? name = some i := by
  cases hj : s.idxOf? name with
  | none => exact absurd (List.mem_of_getElem? h) (List.idxOf?_eq_none_iff.1 hj)
  | some j =>
    have hij : s[j]? = s[i]? := (name?_of_idxOf? hj).trans h.symm
    have hlt : j < s.length := (List.getElem?_eq_some_iff.1 (name?_of_idxOf? hj)).1
    exact congrArg some ((List.getElem?_inj hlt hs).1 hij)

theorem run_intern (name : String) (s : Signature) :
    ∃ i, (intern name).run s = (i, s.extend [name]) ∧ (s.extend [name]).name? i = some name := by
  by_cases h : name ∈ s
  · obtain ⟨i, hi⟩ : ∃ i, s.idxOf? name = some i := by
      rw [← Option.isSome_iff_exists, Option.isSome_iff_ne_none]
      exact fun hnone ↦ List.idxOf?_eq_none_iff.1 hnone h
    rw [extend_singleton_of_mem h]
    exact ⟨i, intern_of_idxOf? hi, name?_of_idxOf? hi⟩
  · rw [extend_singleton_of_not_mem h]
    exact ⟨s.length, intern_of_not_mem h, List.getElem?_concat_length⟩

/-! ### Indexed formulas -/

/-- The signature reads the positions in `g` as the variables in `f`. -/
def Reads (s : Signature) (g : Formula Nat) (f : Formula String) : Prop :=
  g.map s.name? = f.map some

theorem map_name?_congr {s s' : Signature} {g : Formula Nat}
    (h : ∀ i ∈ g.vars, s.name? i = s'.name? i) : g.map s.name? = g.map s'.name? := by
  induction g with
  | const b => rfl
  | var i => exact congrArg Formula.var (h i (List.mem_singleton_self i))
  | neg g ih => exact congrArg Formula.neg (ih h)
  | next g ih => exact congrArg Formula.next (ih h)
  | eventually g ih => exact congrArg Formula.eventually (ih h)
  | always g ih => exact congrArg Formula.always (ih h)
  | conj g g' ih ih' =>
    obtain ⟨hg, hg'⟩ := List.forall_mem_append.1 h
    exact congrArg₂ Formula.conj (ih hg) (ih' hg')
  | disj g g' ih ih' =>
    obtain ⟨hg, hg'⟩ := List.forall_mem_append.1 h
    exact congrArg₂ Formula.disj (ih hg) (ih' hg')
  | strongUntil g g' ih ih' =>
    obtain ⟨hg, hg'⟩ := List.forall_mem_append.1 h
    exact congrArg₂ Formula.strongUntil (ih hg) (ih' hg')

namespace Reads

variable {s s' : Signature} {g : Formula Nat} {f : Formula String}

theorem exists_name (h : s.Reads g f) {i : Nat} (hi : i ∈ g.vars) :
    ∃ name, s.name? i = some name := by
  have hvars : g.vars.map s.name? = f.vars.map some := by
    rw [← Formula.vars_map, ← Formula.vars_map, h]
  have hmem : s.name? i ∈ f.vars.map some := hvars ▸ List.mem_map_of_mem hi
  obtain ⟨name, -, hname⟩ := List.mem_map.1 hmem
  exact ⟨name, hname.symm⟩

/-- The positions lie within the signature. -/
theorem lt_length (h : s.Reads g f) {i : Nat} (hi : i ∈ g.vars) : i < s.length := by
  obtain ⟨name, hname⟩ := h.exists_name hi
  exact (List.getElem?_eq_some_iff.1 hname).1

/-- Names that are added later do not matter. -/
theorem mono (h : s.Reads g f) (hs : s <+: s') : s'.Reads g f := by
  rw [Reads, ← h]
  refine map_name?_congr fun i hi ↦ ?_
  obtain ⟨name, hname⟩ := h.exists_name hi
  rw [hname, name?_of_isPrefix hs hname]

end Reads

section Run

variable {α β : Type} {s s' s'' : Signature}

theorem run_map {m : StateM Signature α} {a : α} (c : α → β) (h : m.run s = (a, s')) :
    (c <$> m).run s = (c a, s') := by
  rw [StateT.run_map, h]
  rfl

theorem run_pair {m m' : StateM Signature α} {a a' : α} (c : α → α → β) (h : m.run s = (a, s'))
    (h' : m'.run s' = (a', s'')) : (do return c (← m) (← m')).run s = (c a a', s'') := by
  rw [StateT.run_bind, h]
  show StateT.run (m' >>= fun b ↦ pure (c a b)) s' = _
  rw [StateT.run_bind, h']
  rfl

end Run

/-- **Indexing a formula** extends the signature by its variables, and the extended signature reads
the indexed formula as the formula. -/
theorem run_index (f : Formula String) (s : Signature) :
    ∃ g, (index f).run s = (g, s.extend f.vars) ∧ (s.extend f.vars).Reads g f := by
  rw [index]
  induction f generalizing s with
  | const b => exact ⟨.const b, rfl, rfl⟩
  | var a =>
    obtain ⟨i, hrun, hname⟩ := run_intern a s
    exact ⟨.var i, run_map Formula.var hrun, congrArg Formula.var hname⟩
  | neg f ih =>
    obtain ⟨g, hrun, hreads⟩ := ih s
    exact ⟨.neg g, run_map Formula.neg hrun, congrArg Formula.neg hreads⟩
  | next f ih =>
    obtain ⟨g, hrun, hreads⟩ := ih s
    exact ⟨.next g, run_map Formula.next hrun, congrArg Formula.next hreads⟩
  | eventually f ih =>
    obtain ⟨g, hrun, hreads⟩ := ih s
    exact ⟨.eventually g, run_map Formula.eventually hrun, congrArg Formula.eventually hreads⟩
  | always f ih =>
    obtain ⟨g, hrun, hreads⟩ := ih s
    exact ⟨.always g, run_map Formula.always hrun, congrArg Formula.always hreads⟩
  -- the right operand extends the signature further, which the left one does not notice
  | conj f h ihf ihh =>
    obtain ⟨g, hrun, hreads⟩ := ihf s
    obtain ⟨g', hrun', hreads'⟩ := ihh (s.extend f.vars)
    rw [Formula.vars, extend_append]
    exact ⟨.conj g g', run_pair Formula.conj hrun hrun',
      congrArg₂ Formula.conj (hreads.mono (isPrefix_extend _ _)) hreads'⟩
  | disj f h ihf ihh =>
    obtain ⟨g, hrun, hreads⟩ := ihf s
    obtain ⟨g', hrun', hreads'⟩ := ihh (s.extend f.vars)
    rw [Formula.vars, extend_append]
    exact ⟨.disj g g', run_pair Formula.disj hrun hrun',
      congrArg₂ Formula.disj (hreads.mono (isPrefix_extend _ _)) hreads'⟩
  | strongUntil f h ihf ihh =>
    obtain ⟨g, hrun, hreads⟩ := ihf s
    obtain ⟨g', hrun', hreads'⟩ := ihh (s.extend f.vars)
    rw [Formula.vars, extend_append]
    exact ⟨.strongUntil g g', run_pair Formula.strongUntil hrun hrun',
      congrArg₂ Formula.strongUntil (hreads.mono (isPrefix_extend _ _)) hreads'⟩

/-- Indexing one item after the other, where `Fits a b s` says that `b` stems from `a` over the
signature `s`. -/
theorem run_mapM {α β : Type} (m : α → StateM Signature β) (vars : α → List String)
    (Fits : α → β → Signature → Prop)
    (hmono : ∀ {a b s s'}, Fits a b s → s <+: s' → Fits a b s')
    (hm : ∀ a s, ∃ b, (m a).run s = (b, s.extend (vars a)) ∧ Fits a b (s.extend (vars a)))
    (as : List α) (s : Signature) :
    ∃ bs, (as.mapM m).run s = (bs, s.extend (as.flatMap vars)) ∧
      List.Forall₂ (fun a b ↦ Fits a b (s.extend (as.flatMap vars))) as bs := by
  induction as generalizing s with
  | nil => exact ⟨[], rfl, .nil⟩
  | cons a as ih =>
    obtain ⟨b, hrun, hfits⟩ := hm a s
    obtain ⟨bs, hruns, hall⟩ := ih (s.extend (vars a))
    refine ⟨b :: bs, ?_, ?_⟩
    · rw [List.mapM_cons, StateT.run_bind, hrun]
      show StateT.run (as.mapM m >>= fun bs ↦ pure (b :: bs)) _ = _
      rw [StateT.run_bind, hruns, List.flatMap_cons, extend_append]
      rfl
    · rw [List.flatMap_cons, extend_append]
      exact .cons (hmono hfits (isPrefix_extend _ _)) hall

end Signature

/-! ### Names -/

theorem firstRepeated?_eq_none_iff {seen names : List String} :
    firstRepeated? seen names = none ↔ names.Nodup ∧ ∀ name ∈ names, name ∉ seen := by
  induction names generalizing seen with
  | nil => simp [firstRepeated?]
  | cons name names ih =>
    rw [firstRepeated?]
    by_cases h : name ∈ seen
    · simp [h]
    · have hcontains : seen.contains name = false := by simpa using h
      rw [hcontains, if_neg Bool.false_ne_true, ih, List.nodup_cons]
      constructor
      · rintro ⟨hnodup, hseen⟩
        refine ⟨⟨fun hmem ↦ hseen name hmem List.mem_cons_self, hnodup⟩, ?_⟩
        rintro other (_ | ⟨_, hother⟩)
        · exact h
        · exact fun hmem ↦ hseen other hother (List.mem_cons_of_mem _ hmem)
      · rintro ⟨⟨hname, hnodup⟩, hseen⟩
        refine ⟨hnodup, fun other hother hmem ↦ ?_⟩
        rcases List.mem_cons.1 hmem with rfl | hmem
        · exact hname hother
        · exact hseen other (List.mem_cons_of_mem _ hother) hmem

/-- What stands in the second of two related lists is related to something in the first. -/
theorem exists_mem_of_forall₂ {α β : Type} {R : α → β → Prop} {as : List α} {bs : List β}
    (h : List.Forall₂ R as bs) {b : β} (hb : b ∈ bs) : ∃ a ∈ as, R a b := by
  induction h with
  | nil => cases hb
  | @cons a b' as bs hR _ ih =>
    rcases List.mem_cons.1 hb with rfl | hb
    · exact ⟨a, List.mem_cons_self, hR⟩
    · obtain ⟨a', ha', hR'⟩ := ih hb
      exact ⟨a', List.mem_cons_of_mem a ha', hR'⟩

namespace Properties

/-! ### Choosing guarantees -/

section Choose

variable {guarantees : List IndexedProperty} {names : List String}

/-- The guarantees that are chosen go with the names, one by one. -/
theorem forall₂_of_choose {chosen : List IndexedProperty}
    (h : choose guarantees names = .ok chosen) :
    List.Forall₂ (fun name f ↦ guarantees.lookup name = some f) names (chosen.map (·.2)) := by
  induction names generalizing chosen with
  | nil =>
    cases h
    exact .nil
  | cons name names ih =>
    rw [choose] at h
    split at h
    · cases h
    · next f hf =>
      cases hrest : choose guarantees names with
      | error e => rw [hrest] at h; cases h
      | ok rest =>
        rw [hrest] at h
        cases h
        exact .cons hf (ih hrest)

/-- Guarantees that go with the names can be chosen. -/
theorem exists_choose_of_forall₂ {formulas : List (Formula Nat)}
    (h : List.Forall₂ (fun name f ↦ guarantees.lookup name = some f) names formulas) :
    ∃ chosen, choose guarantees names = .ok chosen ∧ chosen.map (·.2) = formulas := by
  induction h with
  | nil => exact ⟨[], rfl, rfl⟩
  | @cons name f names formulas hf _ ih =>
    obtain ⟨chosen, hchosen, rfl⟩ := ih
    exact ⟨(name, f) :: chosen, by rw [choose, hf, hchosen]; rfl, rfl⟩

/-- What is found under a name stems from something of that name. -/
theorem exists_of_lookup {α : Type} {R : α → IndexedProperty → Prop} {as : List α}
    (h : List.Forall₂ R as guarantees) {name : String} {f : Formula Nat}
    (hf : guarantees.lookup name = some f) : ∃ a ∈ as, R a (name, f) := by
  induction h with
  | nil => cases hf
  | @cons a c as guarantees hac _ ih =>
    obtain ⟨name', f'⟩ := c
    rw [List.lookup_cons] at hf
    by_cases hname : name = name'
    · subst hname
      rw [beq_self_eq_true] at hf
      cases hf
      exact ⟨a, List.mem_cons_self, hac⟩
    · rw [beq_eq_false_iff_ne.2 hname] at hf
      obtain ⟨b, hb, hR⟩ := ih hf
      exact ⟨b, List.mem_cons_of_mem a hb, hR⟩

theorem exists_lookup_of_mem {name : String} (h : name ∈ guarantees.map (·.1)) :
    ∃ f, guarantees.lookup name = some f := by
  induction guarantees with
  | nil => cases h
  | cons c guarantees ih =>
    obtain ⟨name', f'⟩ := c
    rw [List.lookup_cons]
    by_cases hname : name = name'
    · rw [beq_iff_eq.2 hname]
      exact ⟨f', rfl⟩
    · rw [beq_eq_false_iff_ne.2 hname]
      exact ih ((List.mem_cons.1 h).resolve_left hname)

end Choose

/-! ### Building -/

/-- The variables of a file: those of the guarantees, and then those of the assumes. -/
def vars (p : Properties) : List String :=
  p.guarantees.flatMap (·.formula.vars) ++ p.assumes.flatMap (·.vars)

/-- The signature of a file. -/
def signature (p : Properties) : Signature := Signature.extend [] p.vars

/-- The guarantees of a file, over the positions of its signature. -/
def indexedGuarantees (p : Properties) : List IndexedProperty := (p.index.run []).1.1

/-- The assumes of a file, over the positions of its signature. -/
def indexedAssumes (p : Properties) : List (Formula Nat) := (p.index.run []).1.2

theorem nodup_signature (p : Properties) : p.signature.Nodup :=
  Signature.nodup_extend List.nodup_nil p.vars

/-- **Indexing a file** gives formulas that its signature reads as the formulas of the file. -/
theorem run_index (p : Properties) :
    ∃ guarantees assumes, p.index.run [] = ((guarantees, assumes), p.signature) ∧
      List.Forall₂ (fun (g : Property) (c : IndexedProperty) ↦
        c.1 = g.name ∧ p.signature.Reads c.2 g.formula) p.guarantees guarantees ∧
      List.Forall₂ (fun f g ↦ p.signature.Reads g f) p.assumes assumes := by
  obtain ⟨guarantees, hguarantees, hreads⟩ := Signature.run_mapM
    (fun g : Property ↦ do return (g.name, ← Signature.index g.formula)) (fun g ↦ g.formula.vars)
    (fun g c s ↦ c.1 = g.name ∧ s.Reads c.2 g.formula)
    (fun hfits hprefix ↦ ⟨hfits.1, hfits.2.mono hprefix⟩)
    (fun g s ↦ by
      obtain ⟨f, hrun, hf⟩ := Signature.run_index g.formula s
      exact ⟨(g.name, f), Signature.run_map (Prod.mk g.name) hrun, rfl, hf⟩)
    p.guarantees []
  obtain ⟨assumes, hassumes, hreads'⟩ := Signature.run_mapM Signature.index Formula.vars
    (fun f g s ↦ s.Reads g f) Signature.Reads.mono Signature.run_index p.assumes
    (Signature.extend [] (p.guarantees.flatMap (·.formula.vars)))
  have hsignature : p.signature = (Signature.extend [] (p.guarantees.flatMap
      (·.formula.vars))).extend (p.assumes.flatMap (·.vars)) := Signature.extend_append _ _ _
  rw [← hsignature] at hassumes hreads'
  refine ⟨guarantees, assumes, ?_, ?_, hreads'⟩
  · rw [index, StateT.run_bind, hguarantees]
    show StateT.run (p.assumes.mapM Signature.index >>= fun as ↦ pure (guarantees, as)) _ = _
    rw [StateT.run_bind, hassumes]
    rfl
  · refine hreads.imp fun g c hc ↦ ⟨hc.1, hc.2.mono ?_⟩
    rw [hsignature]
    exact Signature.isPrefix_extend _ _

theorem run_index_eq (p : Properties) :
    p.index.run [] = ((p.indexedGuarantees, p.indexedAssumes), p.signature) := by
  obtain ⟨guarantees, assumes, hrun, -⟩ := p.run_index
  rw [indexedGuarantees, indexedAssumes, hrun]

theorem reads_indexedGuarantees (p : Properties) :
    List.Forall₂ (fun (g : Property) (c : IndexedProperty) ↦
      c.1 = g.name ∧ p.signature.Reads c.2 g.formula) p.guarantees p.indexedGuarantees := by
  obtain ⟨guarantees, assumes, hrun, hreads, -⟩ := p.run_index
  rwa [indexedGuarantees, hrun]

theorem reads_indexedAssumes (p : Properties) :
    List.Forall₂ (fun f g ↦ p.signature.Reads g f) p.assumes p.indexedAssumes := by
  obtain ⟨guarantees, assumes, hrun, -, hreads⟩ := p.run_index
  rwa [indexedAssumes, hrun]

/-- What is found under a name is a guarantee of that name. -/
theorem exists_reads_of_lookup {p : Properties} {name : String} {g : Formula Nat}
    (h : p.indexedGuarantees.lookup name = some g) :
    ∃ property ∈ p.guarantees, property.name = name ∧ p.signature.Reads g property.formula := by
  obtain ⟨property, hmem, hname, hreads⟩ := exists_of_lookup p.reads_indexedGuarantees h
  exact ⟨property, hmem, hname.symm, hreads⟩

theorem map_fst_indexedGuarantees (p : Properties) :
    p.indexedGuarantees.map (·.1) = p.names := by
  have h : List.Forall₂ Eq (p.indexedGuarantees.map (·.1)) p.names :=
    List.forall₂_map_left_iff.2 <| List.forall₂_map_right_iff.2 <|
      (p.reads_indexedGuarantees.imp fun _ _ hc ↦ hc.1).flip
  rwa [List.forall₂_eq_eq_eq] at h

/-- **Building in closed form.** The selection decides about nothing but the guarantees. -/
theorem build_eq_ok_iff {p : Properties} {selection : Selection} {m : MonitoredProperties} :
    p.build selection = .ok m ↔ p.names.Nodup ∧ ∃ guarantees,
      List.Forall₂ (fun name f ↦ p.indexedGuarantees.lookup name = some f) (p.selected selection)
        guarantees ∧
      m = ⟨.ofFormulas p.indexedAssumes guarantees,
        ⟨p.signature, p.names, p.selected selection⟩⟩ := by
  have hnodup : p.names.Nodup ↔ firstRepeated? [] p.names = none := by
    simp [firstRepeated?_eq_none_iff]
  rw [build, run_index_eq, hnodup]
  cases firstRepeated? [] p.names with
  | some name => simp
  | none =>
    simp only [true_and]
    constructor
    · intro h
      cases hchoose : choose p.indexedGuarantees (p.selected selection) with
      | error e => rw [hchoose] at h; cases h
      | ok chosen =>
        rw [hchoose] at h
        cases h
        exact ⟨_, forall₂_of_choose hchoose, rfl⟩
    · rintro ⟨guarantees, hguarantees, rfl⟩
      obtain ⟨chosen, hchoose, rfl⟩ := exists_choose_of_forall₂ hguarantees
      rw [hchoose]

/-! ### Loading -/

theorem load_eq_ok_iff {t : FileTree} {path : Path} {selection : Selection}
    {m : MonitoredProperties} :
    load t path selection = .ok m ↔ ∃ p, readFile t path = .ok p ∧ p.build selection = .ok m := by
  rw [load]
  cases readFile t path with
  | error e => simp
  | ok p =>
    cases h : p.build selection with
    | error e => simp [h]
    | ok m' => simp [h]

end Properties

end TemporalMonitor
