import TemporalMonitor.Proofs.Renaming
import TemporalMonitor.Proofs.Selection

/-!
# Building properties is faithful

What is monitored is what the file says: building fails only for a name that is given to two
guarantees, or that is selected and given to none; and otherwise each property of the oracle,
renamed through the signature, is the formula of the file (`Properties.build_faithful`).

A signature finds the position of a name by looking through its names. An interner keeps a map from
names to positions beside the list. The two stay inverse to each other through the traversals of all
formulas, the ones that are not monitored included, and while they are, the map finds what looking
through the list finds (`Interner.Simulates`). So both give the same formulas and the same signature
(`Interner.exists_run_index`).
-/

namespace TemporalMonitor

/-! ### Interning with a map -/

/-- Names and their positions, kept twice. -/
structure Interner where
  /-- The position of each name. -/
  positions : Std.HashMap String Nat := {}
  /-- The names, by position. -/
  signature : Signature := []

namespace Interner

/-- The position of a name; a new one gets the next position. -/
def intern (name : String) : StateM Interner Nat := fun b ↦
  match b.positions[name]? with
  | some i => (i, b)
  | none =>
    (b.signature.length, ⟨b.positions.insert name b.signature.length, b.signature ++ [name]⟩)

/-- The positions of names and the names at positions are inverse to each other. -/
def Inverse (b : Interner) : Prop :=
  ∀ name i, b.positions[name]? = some i ↔ b.signature.name? i = some name

theorem inverse_empty : Inverse {} := by
  intro name i
  simp [Signature.name?]

theorem Inverse.nodup {b : Interner} (h : b.Inverse) : b.signature.Nodup := by
  rw [List.nodup_iff_getElem?_ne_getElem?]
  intro i j hij hj heq
  have hname : b.signature.name? j = some b.signature[j] := List.getElem?_eq_getElem hj
  have hi := (h _ i).2 (heq.trans hname)
  exact absurd (Option.some.inj (hi.symm.trans ((h _ j).2 hname))) (Nat.ne_of_lt hij)

/-- A name that the map does not know is not in the list. -/
theorem Inverse.not_mem {b : Interner} (h : b.Inverse) {name : String}
    (hname : b.positions[name]? = none) : name ∉ b.signature := by
  intro hmem
  obtain ⟨i, hi, hget⟩ := List.getElem_of_mem hmem
  have hsome : b.signature.name? i = some name := by
    rw [Signature.name?, List.getElem?_eq_getElem hi, hget]
  cases hname.symm.trans ((h name i).2 hsome)

/-- A new name keeps the map and the list inverse to each other. -/
theorem Inverse.insert {b : Interner} (h : b.Inverse) {name : String} (hname : name ∉ b.signature) :
    Inverse ⟨b.positions.insert name b.signature.length, b.signature ++ [name]⟩ := by
  intro other i
  rw [Std.HashMap.getElem?_insert, Signature.name?]
  by_cases hother : name = other
  · subst hother
    rw [if_pos (beq_self_eq_true name)]
    constructor
    · rintro ⟨⟩
      exact List.getElem?_concat_length
    · intro hi
      rcases Nat.lt_or_ge i b.signature.length with hlt | hge
      · rw [List.getElem?_append_left hlt] at hi
        exact absurd (List.mem_of_getElem? hi) hname
      · have hbound := (List.getElem?_eq_some_iff.1 hi).1
        rw [List.length_append, List.length_singleton] at hbound
        exact congrArg some (by omega)
  · rw [if_neg (fun heq ↦ hother (beq_iff_eq.1 heq)), h other i, Signature.name?]
    rcases Nat.lt_or_ge i b.signature.length with hlt | hge
    · rw [List.getElem?_append_left hlt]
    · rw [List.getElem?_append_right hge, List.getElem?_eq_none hge]
      refine iff_of_false (fun h ↦ by cases h) fun hi ↦ hother ?_
      exact List.mem_singleton.1 (List.mem_of_getElem? hi) |>.symm

/-- From an interner whose map and list are inverse to each other, `m` gives what `m'` gives from
the list alone, and leaves the list that `m'` leaves and a map that is inverse to it. -/
def Simulates {α : Type} (m : StateM Interner α) (m' : StateM Signature α) : Prop :=
  ∀ b : Interner, b.Inverse → ∃ a b', m.run b = (a, b') ∧ m'.run b.signature = (a, b'.signature) ∧
    b'.Inverse

namespace Simulates

variable {α β : Type}

theorem pure (a : α) : Simulates (Pure.pure a) (Pure.pure a) :=
  fun b hb ↦ ⟨a, b, rfl, rfl, hb⟩

theorem bind {m : StateM Interner α} {m' : StateM Signature α} {k : α → StateM Interner β}
    {k' : α → StateM Signature β} (hm : Simulates m m') (hk : ∀ a, Simulates (k a) (k' a)) :
    Simulates (m >>= k) (m' >>= k') := by
  intro b hb
  obtain ⟨a, b₁, hrun, hrun', hb₁⟩ := hm b hb
  obtain ⟨c, b₂, hrest, hrest', hb₂⟩ := hk a b₁ hb₁
  refine ⟨c, b₂, ?_, ?_, hb₂⟩
  · rw [StateT.run_bind, hrun]
    exact hrest
  · rw [StateT.run_bind, hrun']
    exact hrest'

theorem map {m : StateM Interner α} {m' : StateM Signature α} (c : α → β)
    (hm : Simulates m m') : Simulates (c <$> m) (c <$> m') := by
  rw [map_eq_pure_bind, map_eq_pure_bind]
  exact hm.bind fun a ↦ .pure (c a)

theorem mapM {γ : Type} {m : γ → StateM Interner α} {m' : γ → StateM Signature α}
    (hm : ∀ c, Simulates (m c) (m' c)) (cs : List γ) : Simulates (cs.mapM m) (cs.mapM m') := by
  induction cs with
  | nil => exact .pure []
  | cons c cs ih =>
    rw [List.mapM_cons, List.mapM_cons]
    exact (hm c).bind fun a ↦ ih.bind fun as ↦ .pure (a :: as)

end Simulates

/-- **One name**: the map finds what looking through the list finds. -/
theorem simulates_intern (name : String) : Simulates (intern name) (Signature.intern name) := by
  intro b hb
  cases hname : b.positions[name]? with
  | some i =>
    refine ⟨i, b, ?_, ?_, hb⟩
    · simp only [intern, StateT.run, hname]
    · exact Signature.intern_of_idxOf? (Signature.idxOf?_of_name? hb.nodup ((hb name i).1 hname))
  | none =>
    refine ⟨_, _, ?_, Signature.intern_of_not_mem (hb.not_mem hname), hb.insert (hb.not_mem hname)⟩
    simp only [intern, StateT.run, hname]

theorem simulates_mapM (f : Formula String) :
    Simulates (f.mapM intern) (f.mapM Signature.intern) := by
  induction f with
  | const b => exact .pure _
  | var a => exact (simulates_intern a).map Formula.var
  | neg f ih => exact ih.map Formula.neg
  | next f ih => exact ih.map Formula.next
  | eventually f ih => exact ih.map Formula.eventually
  | always f ih => exact ih.map Formula.always
  | conj f g ihf ihg => exact ihf.bind fun f' ↦ ihg.bind fun g' ↦ .pure (Formula.conj f' g')
  | disj f g ihf ihg => exact ihf.bind fun f' ↦ ihg.bind fun g' ↦ .pure (Formula.disj f' g')
  | strongUntil f g ihf ihg =>
    exact ihf.bind fun f' ↦ ihg.bind fun g' ↦ .pure (Formula.strongUntil f' g')

/-- Indexes the guarantees of a file and then its assumes, with a map. -/
def index (p : Properties) : StateM Interner (List IndexedProperty × List (Formula Nat)) := do
  let guarantees ← p.guarantees.mapM fun g ↦ do return (g.name, ← g.formula.mapM intern)
  let assumes ← p.assumes.mapM fun f ↦ f.mapM intern
  return (guarantees, assumes)

/-- **A whole file**: with a map, the formulas and the signature are the same as without. -/
theorem exists_run_index (p : Properties) : ∃ b : Interner,
    (index p).run {} = ((p.indexedGuarantees, p.indexedAssumes), b) ∧
      b.signature = p.signature ∧ b.Inverse := by
  have hguarantees := Simulates.mapM
    (fun g : Property ↦ (simulates_mapM g.formula).bind fun f ↦ .pure (g.name, f)) p.guarantees
  have hassumes := Simulates.mapM simulates_mapM p.assumes
  have hindex : Simulates (index p) p.index :=
    hguarantees.bind fun guarantees ↦ hassumes.bind fun assumes ↦ .pure (guarantees, assumes)
  obtain ⟨formulas, b, hrun, hrun', hb⟩ := hindex {} inverse_empty
  have hsame : (formulas, b.signature) =
      ((p.indexedGuarantees, p.indexedAssumes), p.signature) := hrun'.symm.trans p.run_index_eq
  obtain ⟨rfl, hsignature⟩ := Prod.mk.inj hsame
  exact ⟨b, hrun, hsignature, hb⟩

end Interner

/-! ### First occurrences -/

theorem Signature.mem_extend {s : Signature} {names : List String} {name : String} :
    name ∈ s.extend names ↔ name ∈ s ∨ name ∈ names := by
  induction names generalizing s with
  | nil => simp
  | cons n names ih =>
    rw [extend_cons, ih, List.mem_cons]
    by_cases h : n ∈ s
    · rw [extend_singleton_of_mem h]
      grind
    · rw [extend_singleton_of_not_mem h, List.mem_append, List.mem_singleton, or_assoc]

/-- Extending the empty signature keeps the first occurrence of each name. -/
theorem Signature.extend_nil_eq_eraseDups (names : List String) :
    extend [] names = names.eraseDups := by
  induction names using List.reverseRecOn with
  | nil => rfl
  | append_singleton names name ih =>
    rw [extend_append, eraseDups_concat, ← ih]
    split_ifs with h
    · exact extend_singleton_of_mem (mem_extend.2 (.inr h))
    · exact extend_singleton_of_not_mem fun hmem ↦ h <| (mem_extend.1 hmem).resolve_left
        List.not_mem_nil

/-! ### What is built -/

/-- The formula `g` over positions is the formula `f` over the names of the signature. -/
structure Signature.Translates (sig : Signature) (f : Formula String) (g : Formula Nat) : Prop where
  /-- The positions are positions of the signature. -/
  positions : ∀ i ∈ g.vars, i < sig.length
  /-- Renaming them gives the formula back. -/
  renamed : g.mapM sig.name = .ok f

theorem Signature.Reads.translates {sig : Signature} {f : Formula String} {g : Formula Nat}
    (h : sig.Reads g f) : sig.Translates f g :=
  ⟨fun _ hi ↦ h.lt_length hi, h.mapM_name⟩

namespace Properties

/-- What is built from a file is what the file says about the guarantees that are monitored. -/
structure FaithfulTo (p : Properties) (monitored : List String) (m : MonitoredProperties) :
    Prop where
  /-- No name is repeated in the signature. -/
  nodup : m.catalogue.signature.Nodup
  /-- It lists the variables of all guarantees and then of all assumes by first occurrence. -/
  signature : m.catalogue.signature =
    (p.guarantees.flatMap (·.formula.vars) ++ p.assumes.flatMap (·.vars)).eraseDups
  /-- Positions of names and names at positions are inverse to each other. -/
  inverse : ∀ name i, m.catalogue.signature.idxOf? name = some i ↔
    m.catalogue.signature.name? i = some name
  /-- Interning with a map gives the same formulas and the same signature, and leaves a map that is
  inverse to it. -/
  interner : ∃ b : Interner,
    (Interner.index p).run {} = ((p.indexedGuarantees, p.indexedAssumes), b) ∧
      b.signature = m.catalogue.signature ∧ b.Inverse
  /-- All guarantees are listed, and those that are monitored. -/
  names : m.catalogue.guarantees = p.names ∧ m.catalogue.monitored = monitored
  /-- The oracle holds all assumes in order, and the guarantees that are monitored in order. -/
  oracle : ∃ assumes guarantees, m.oracle = .ofFormulas assumes guarantees ∧
    List.Forall₂ m.catalogue.signature.Translates p.assumes assumes ∧
    List.Forall₂ (fun name g ↦ ∃ property ∈ p.guarantees, property.name = name ∧
      m.catalogue.signature.Translates property.formula g) monitored guarantees

theorem faithfulTo_of_build {p : Properties} {selection : Selection} {m : MonitoredProperties}
    (h : p.build selection = .ok m) : p.FaithfulTo (p.selected selection) m := by
  obtain ⟨-, guarantees, hguarantees, rfl⟩ := build_eq_ok_iff.1 h
  refine ⟨p.nodup_signature, Signature.extend_nil_eq_eraseDups p.vars, fun name i ↦ ?_,
    Interner.exists_run_index p, ⟨rfl, rfl⟩, p.indexedAssumes, guarantees, rfl, ?_, ?_⟩
  · exact ⟨Signature.name?_of_idxOf?, Signature.idxOf?_of_name? p.nodup_signature⟩
  · exact p.reads_indexedAssumes.imp fun _ _ hreads ↦ hreads.translates
  · refine hguarantees.imp fun name g hlookup ↦ ?_
    obtain ⟨property, hmem, hname, hreads⟩ := exists_reads_of_lookup hlookup
    exact ⟨property, hmem, hname, hreads.translates⟩

/-- **Building succeeds** exactly if no guarantees share a name and the selected names are known. -/
theorem exists_build_iff {p : Properties} {selection : Selection} :
    (∃ m, p.build selection = .ok m) ↔
      p.names.Nodup ∧ ∀ name ∈ p.selected selection, name ∈ p.names := by
  constructor
  · rintro ⟨m, hbuild⟩
    obtain ⟨hnodup, guarantees, hguarantees, -⟩ := build_eq_ok_iff.1 hbuild
    refine ⟨hnodup, fun name hname ↦ ?_⟩
    obtain ⟨f, -, hlookup⟩ := exists_mem_of_forall₂ (List.Forall₂.flip hguarantees) hname
    obtain ⟨property, hmem, heq, -⟩ := exists_reads_of_lookup hlookup
    exact List.mem_map.2 ⟨property, hmem, heq⟩
  · rintro ⟨hnodup, hknown⟩
    obtain ⟨guarantees, hguarantees⟩ := p.exists_forall₂_lookup hknown
    exact ⟨_, build_eq_ok_iff.2 ⟨hnodup, guarantees, hguarantees, rfl⟩⟩

/-- **Building properties is faithful.** It fails exactly if two guarantees have the same name, or
if not all guarantees are asked for and a name is given that none has. Otherwise what is built is
what the file says. -/
theorem build_faithful (p : Properties) (names : List String) (all : Bool) :
    let selection : Selection := if all then .all else .named names
    ((∃ e, p.build selection = .error e) ↔
      ¬ p.names.Nodup ∨ all = false ∧ ∃ name ∈ names, name ∉ p.names) ∧
    ∀ m, p.build selection = .ok m → p.FaithfulTo (if all then p.names else names) m := by
  intro selection
  have hselected : p.selected selection = if all then p.names else names := by
    cases all <;> rfl
  refine ⟨?_, fun m hbuild ↦ hselected ▸ faithfulTo_of_build hbuild⟩
  have hfails : (∃ e, p.build selection = .error e) ↔ ¬ ∃ m, p.build selection = .ok m := by
    cases p.build selection <;> simp
  rw [hfails, exists_build_iff, hselected, not_and_or]
  cases all <;> simp

/-- Two guarantees and an assume that share variables; the second guarantee is selected twice. -/
theorem build_faithful_twice :
    let p : Properties :=
      ⟨[.always (.var "c")], [⟨"p", .disj (.var "b") (.var "a")⟩,
        ⟨"q", .strongUntil (.var "a") (.neg (.var "c"))⟩]⟩
    let m : MonitoredProperties :=
      ⟨.ofFormulas [.always (.var 2)] [.strongUntil (.var 1) (.neg (.var 2)),
        .disj (.var 0) (.var 1), .strongUntil (.var 1) (.neg (.var 2))],
        ⟨["b", "a", "c"], ["p", "q"], ["q", "p", "q"]⟩⟩
    p.build (.named ["q", "p", "q"]) = .ok m ∧ p.FaithfulTo ["q", "p", "q"] m ∧
      ∃ e, p.build (.named ["q", "r"]) = .error e := by
  intro p m
  have hbuild : p.build (.named ["q", "p", "q"]) = .ok m := by decide
  have hunknown : "r" ∉ p.names := by decide
  refine ⟨hbuild, (build_faithful p ["q", "p", "q"] false).2 m hbuild, ?_⟩
  exact (build_faithful p ["q", "r"] false).1.2 (.inr ⟨rfl, "r", by decide, hunknown⟩)

end Properties

end TemporalMonitor
