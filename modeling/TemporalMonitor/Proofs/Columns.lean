import Mathlib.Data.List.Forall2
import Mathlib.Data.List.Perm.Basic
import TemporalMonitor.Proofs.AnnotatedTrace

/-!
# Columns are matched by name

A row of a trace comes with the names of its columns (`NamedRow`), and the names alone say where its
cells go: a cell matters if its column is named like a variable, and of several columns with one
name the last one counts. A row is **readable** if the cells that matter are empty or truth values
(`CellMeans`); then it is a state (`NamedRow.IsState`), and otherwise the leftmost cell that is at
fault is reported, with the number of states before it (`Reading.MapsByName`). What the buffer held
has no part in this.

All that is said about a row is said in terms of its cells that matter. So if no name is repeated,
neither the order of the columns nor the columns that are not used have an influence on the states
(`SameCells`).
-/

namespace TemporalMonitor

/-! ### Letters in two cases -/

namespace Text

theorem isLower_iff {d : Char} : d.isLower = true ↔ 97 ≤ d.toNat ∧ d.toNat ≤ 122 := by
  show (decide (d.val ≥ 'a'.val) && decide (d.val ≤ 'z'.val)) = true ↔ _
  rw [Bool.and_eq_true_iff, decide_eq_true_iff, decide_eq_true_iff]
  exact Iff.rfl

theorem toNat_toLower (c : Char) :
    c.toLower.toNat = if 65 ≤ c.toNat ∧ c.toNat ≤ 90 then c.toNat + 32 else c.toNat := by
  delta Char.toLower
  split_ifs with h₁ h₂ h₂
  · have hgap : ('a'.val - 'A'.val).toNat = 32 := rfl
    show (c.val + ('a'.val - 'A'.val)).toNat = c.val.toNat + 32
    have hle : c.val.toNat ≤ 90 := h₂.2
    rw [UInt32.toNat_add, hgap]
    omega
  · exact absurd h₁ h₂
  · exact absurd h₂ h₁
  · rfl

theorem toNat_toUpper {d : Char} (hd : d.isLower = true) : d.toUpper.toNat + 32 = d.toNat := by
  obtain ⟨hge, hle⟩ := isLower_iff.1 hd
  have hgap : ('A'.val - 'a'.val).toNat = 4294967264 := rfl
  have hval : d.toNat = d.val.toNat := rfl
  delta Char.toUpper
  rw [dif_pos ⟨hge, hle⟩]
  show (d.val + ('A'.val - 'a'.val)).toNat + 32 = d.val.toNat
  rw [UInt32.toNat_add, hgap]
  omega

theorem toLower_eq_iff {c d : Char} (hd : d.isLower = true) :
    c.toLower = d ↔ c = d ∨ c = d.toUpper := by
  have hlower := isLower_iff.1 hd
  have hupper := toNat_toUpper hd
  rw [← Char.toNat_inj, ← Char.toNat_inj, ← Char.toNat_inj, toNat_toLower]
  split_ifs with h <;> omega

theorem map_toLower_eq_iff {cs ds : List Char} (hds : ∀ d ∈ ds, d.isLower = true) :
    cs.map Char.toLower = ds ↔ List.Forall₂ (fun c d ↦ c = d ∨ c = d.toUpper) cs ds := by
  induction ds generalizing cs with
  | nil => rw [List.map_eq_nil_iff, List.forall₂_nil_right_iff]
  | cons d ds ih =>
    rw [List.forall_mem_cons] at hds
    cases cs with
    | nil => simp
    | cons c cs =>
      rw [List.map_cons, List.cons_eq_cons, List.forall₂_cons, toLower_eq_iff hds.1, ih hds.2]

/-- The text is the given word, with each letter in lower or in upper case. -/
def Spells (text word : String) : Prop :=
  List.Forall₂ (fun c d ↦ c = d ∨ c = d.toUpper) text.toList word.toList

theorem toLower_eq_iff_spells {text word : String} (hword : word.toList.all Char.isLower = true) :
    text.toLower = word ↔ Spells text word := by
  rw [← String.toList_inj]
  show (text.map Char.toLower).toList = word.toList ↔ _
  rw [String.toList_map]
  exact map_toLower_eq_iff (List.all_eq_true.1 hword)

end Text

/-! ### Cells -/

/-- What a cell says about the variable of its column. -/
inductive CellMeans : String → Option Bool → Prop
  /-- An empty cell: the variable is not observed. -/
  | unobserved : CellMeans "" none
  | one : CellMeans "1" (some true)
  | zero : CellMeans "0" (some false)
  | trueWord {cell : String} (h : Text.Spells cell "true") : CellMeans cell (some true)
  | falseWord {cell : String} (h : Text.Spells cell "false") : CellMeans cell (some false)

theorem toLower_eq_true_iff {cell : String} : cell.toLower = "true" ↔ Text.Spells cell "true" :=
  Text.toLower_eq_iff_spells (by decide)

theorem toLower_eq_false_iff {cell : String} : cell.toLower = "false" ↔ Text.Spells cell "false" :=
  Text.toLower_eq_iff_spells (by decide)

theorem cellValue?_eq_some_iff {cell : String} {v : Option Bool} :
    cellValue? cell = some v ↔ CellMeans cell v := by
  constructor
  · intro h
    rw [cellValue?] at h
    split_ifs at h with hempty htrue hfalse
    · cases h
      rw [hempty]
      exact .unobserved
    · cases h
      rw [Bool.or_eq_true, decide_eq_true_iff, decide_eq_true_iff] at htrue
      rcases htrue with rfl | htrue
      · exact .one
      · exact .trueWord (toLower_eq_true_iff.1 htrue)
    · cases h
      rw [Bool.or_eq_true, decide_eq_true_iff, decide_eq_true_iff] at hfalse
      rcases hfalse with rfl | hfalse
      · exact .zero
      · exact .falseWord (toLower_eq_false_iff.1 hfalse)
  · intro h
    cases h with
    | unobserved => rfl
    | one => decide +kernel
    | zero => decide +kernel
    | trueWord h =>
      have hlower := toLower_eq_true_iff.2 h
      have hempty : cell ≠ "" := by
        rintro rfl
        exact absurd hlower (by decide +kernel)
      simp [cellValue?, hempty, hlower]
    | falseWord h =>
      have hlower := toLower_eq_false_iff.2 h
      have hempty : cell ≠ "" := by
        rintro rfl
        exact absurd hlower (by decide +kernel)
      have hone : cell ≠ "1" := by
        rintro rfl
        exact absurd hlower (by decide +kernel)
      simp [cellValue?, hempty, hone, hlower]

/-! ### Rows with the names of their columns -/

/-- The cells of a row from left to right, each with the name of its column. -/
abbrev NamedRow := List (String × String)

namespace NamedRow

/-- The cells that matter say something about their variables. -/
def Readable (signature : Signature) (row : NamedRow) : Prop :=
  ∀ x ∈ row, x.1 ∈ signature → ∃ v, CellMeans x.2 v

/-- The cell is the leftmost one that matters and says nothing about its variable. -/
def FailsAt (signature : Signature) (row : NamedRow) (name cell : String) : Prop :=
  ∃ before after, row = before ++ (name, cell) :: after ∧ name ∈ signature ∧
    (¬∃ v, CellMeans cell v) ∧ Readable signature before

/-- The state that a row stands for. -/
structure IsState (signature : Signature) (row : NamedRow) (s : State) : Prop where
  /-- There is an entry for each variable. -/
  length_eq : s.length = signature.length
  /-- The last column with the name of a variable gives its entry. -/
  last : ∀ {i : Nat} {name cell : String} {before after : NamedRow}, signature[i]? = some name →
    row = before ++ (name, cell) :: after → (∀ x ∈ after, x.1 ≠ name) →
      ∃ v, CellMeans cell v ∧ s[i]? = some v
  /-- A variable without a column is not observed. -/
  missing : ∀ {i : Nat} {name : String}, signature[i]? = some name → (∀ x ∈ row, x.1 ≠ name) →
    s[i]? = some none

/-- The cells with their columns, as they are put into a state. -/
def placed (signature : Signature) (row : NamedRow) : List (Column × String) :=
  row.map fun x ↦ (⟨x.1, signature.idxOf? x.1⟩, x.2)

/-- What putting the cells into a state without observations comes to. -/
def toState (signature : Signature) (row : NamedRow) : State :=
  (fillState (List.replicate signature.length none) (placed signature row)).1

/-- The cell matters and cannot be read. -/
def offends (signature : Signature) (x : String × String) : Bool :=
  decide (x.1 ∈ signature) && (cellValue? x.2).isNone

theorem offends_eq_false_iff {signature : Signature} {x : String × String} :
    offends signature x = false ↔ (x.1 ∈ signature → ∃ v, CellMeans x.2 v) := by
  simp only [offends, ← cellValue?_eq_some_iff, ← Option.isSome_iff_exists]
  cases cellValue? x.2 <;> simp

theorem zip_columnsOf (signature : Signature) (header record : List String) :
    (TraceReader.columnsOf signature header).zip record = placed signature (header.zip record) := by
  rw [TraceReader.columnsOf, List.zip_map_left]
  rfl

end NamedRow

/-! ### Filling a state -/

section Filling

open NamedRow

variable {signature : Signature}

/-- Filling stops at the leftmost cell that offends. -/
theorem snd_fillState (signature : Signature) (s : State) (row : NamedRow) :
    (fillState s (placed signature row)).2 = row.find? (offends signature) := by
  induction row generalizing s with
  | nil => rfl
  | cons x row ih =>
    rw [placed, List.map_cons, fillState, ← placed]
    cases hindex : signature.idxOf? x.1 with
    | none =>
      have hx : offends signature x = false := by
        simp [offends, List.idxOf?_eq_none_iff.1 hindex]
      rw [List.find?_cons_of_neg (Bool.eq_false_iff.1 hx)]
      exact ih s
    | some i =>
      have hmem : x.1 ∈ signature := List.isSome_idxOf?.1 (Option.isSome_of_eq_some hindex)
      cases hvalue : cellValue? x.2 with
      | none => exact (List.find?_cons_of_pos (by simp [offends, hmem, hvalue])).symm
      | some v =>
        rw [List.find?_cons_of_neg (by simp [offends, hvalue])]
        exact ih (s.set i v)

theorem fillState_append (s : State) (cells rest : List (Column × String))
    (h : (fillState s cells).2 = none) :
    fillState s (cells ++ rest) = fillState (fillState s cells).1 rest := by
  fun_induction fillState s cells with
  | case1 s => rfl
  | case2 s column cell cells hindex ih =>
    rw [List.cons_append, fillState, hindex]
    exact ih h
  | case3 s column cell cells i hindex hvalue => cases h
  | case4 s column cell cells i hindex v hvalue ih =>
    rw [List.cons_append, fillState, hindex]
    simp only [hvalue]
    exact ih h

/-- A column with another name leaves the entry of a variable alone. -/
theorem getElem?_fillState_of_ne {i : Nat} {name : String} (hi : signature[i]? = some name)
    (s : State) {row : NamedRow} (hrow : ∀ x ∈ row, x.1 ≠ name) :
    (fillState s (placed signature row)).1[i]? = s[i]? := by
  induction row generalizing s with
  | nil => rfl
  | cons x row ih =>
    rw [List.forall_mem_cons] at hrow
    rw [placed, List.map_cons, fillState, ← placed]
    cases hindex : signature.idxOf? x.1 with
    | none => exact ih s hrow.2
    | some j =>
      cases cellValue? x.2 with
      | none => rfl
      | some v =>
        have hne : j ≠ i := by
          rintro rfl
          exact hrow.1 (Option.some.inj ((Signature.name?_of_idxOf? hindex).symm.trans hi))
        exact (ih (s.set j v) hrow.2).trans (List.getElem?_set_ne hne)

/-- The last column with the name of a variable overwrites what the others put there. -/
theorem getElem?_fillState_of_last (hsig : signature.Nodup) {i : Nat} {name cell : String}
    (hi : signature[i]? = some name) {s : State} (hs : i < s.length) {before after : NamedRow}
    (hafter : ∀ x ∈ after, x.1 ≠ name)
    (hread : (before ++ (name, cell) :: after).find? (offends signature) = none) :
    ∃ v, CellMeans cell v ∧
      (fillState s (placed signature (before ++ (name, cell) :: after))).1[i]? = some v := by
  rw [List.find?_append, Option.or_eq_none_iff] at hread
  obtain ⟨hbefore, hcell⟩ := hread
  obtain ⟨v, hv⟩ : ∃ v, CellMeans cell v :=
    offends_eq_false_iff.1
      (Bool.eq_false_iff.2 (List.find?_eq_none.1 hcell _ List.mem_cons_self))
      (List.mem_of_getElem? hi)
  refine ⟨v, hv, ?_⟩
  have hsplit : placed signature (before ++ (name, cell) :: after) =
      placed signature before ++ (⟨name, some i⟩, cell) :: placed signature after := by
    rw [placed, List.map_append, List.map_cons, Signature.idxOf?_of_name? hsig hi]
    rfl
  rw [hsplit, fillState_append _ _ _ ((snd_fillState signature s before).trans hbefore), fillState]
  simp only [cellValue?_eq_some_iff.2 hv]
  rw [getElem?_fillState_of_ne hi _ hafter]
  exact List.getElem?_set_self (by rwa [length_fillState])

/-- **A row that can be read is put into a state by the names of its columns.** -/
theorem isState_toState (hsig : signature.Nodup) {row : NamedRow}
    (hrow : Readable signature row) : IsState signature row (toState signature row) where
  length_eq := by rw [toState, length_fillState, List.length_replicate]
  last := by
    rintro i name cell before after hi rfl hafter
    have hlt : i < signature.length := (List.getElem?_eq_some_iff.1 hi).1
    refine getElem?_fillState_of_last hsig hi (by rwa [List.length_replicate]) hafter ?_
    exact List.find?_eq_none.2 fun x hx ↦
      Bool.eq_false_iff.1 (offends_eq_false_iff.2 (hrow x hx))
  missing := by
    intro i name hi hne
    have hlt : i < signature.length := (List.getElem?_eq_some_iff.1 hi).1
    rw [toState, getElem?_fillState_of_ne hi _ hne, List.getElem?_replicate_of_lt hlt]

end Filling

/-! ### Calls of a reader -/

namespace TraceReader

open NamedRow

/-- A call has mapped a row onto the signature by the names of the columns. -/
structure Reading.MapsByName (signature : Signature) (row : NamedRow) (step : Nat)
    (reading : Reading) : Prop where
  /-- The call succeeds if the cells that matter say something, and only then. -/
  success_iff : reading.more = .ok true ↔ Readable signature row
  /-- If so, the buffer holds the state that the row stands for. -/
  isState : Readable signature row → IsState signature row reading.buffer
  /-- Otherwise the leftmost cell at fault is reported, with the number of states before. -/
  failure : ¬Readable signature row →
    ∃ name cell, FailsAt signature row name cell ∧
      reading.more = .error (.invalidValue step name cell)

/-- Successful calls have delivered the states, in order, and left the second reader behind. -/
def Delivered : TraceReader → List State → TraceReader → Prop
  | r, [], r' => r' = r
  | r, s :: states, r' => ∃ buffer, (r.next buffer).more = .ok true ∧
      (r.next buffer).buffer = s ∧ Delivered (r.next buffer).reader states r'

/-- The reader of the columns in the header, with some rows left and some states read. -/
def ofRows (signature : Signature) (header : List String)
    (rows : List (Except Csv.Error (List String))) (step : Nat) : TraceReader :=
  ⟨signature.length, columnsOf signature header, rows, step⟩

variable {signature : Signature} {header record : List String}

section Next

variable (rows : List (Except Csv.Error (List String))) (step : Nat) (buffer : State)

/-- A row that can be read is taken from the rows and counted, whatever the buffer holds. -/
theorem next_of_readable (h : Readable signature (header.zip record)) :
    (ofRows signature header (.ok record :: rows) step).next buffer =
      ⟨.ok true, toState signature (header.zip record),
        ofRows signature header rows (step + 1)⟩ := by
  have hsnd : (fillState (List.replicate signature.length none)
      (placed signature (header.zip record))).2 = none := by
    rw [snd_fillState, List.find?_eq_none]
    exact fun x hx ↦ Bool.eq_false_iff.1 (offends_eq_false_iff.2 (h x hx))
  simp only [next, ofRows, zip_columnsOf, toState]
  rcases hfill : fillState (List.replicate signature.length none)
    (placed signature (header.zip record)) with ⟨s, failure⟩
  rw [hfill] at hsnd
  obtain rfl : failure = none := hsnd
  rfl

/-- A row that cannot be read is reported by its leftmost cell at fault. -/
theorem next_of_not_readable (h : ¬Readable signature (header.zip record)) :
    ∃ name cell, FailsAt signature (header.zip record) name cell ∧
      ((ofRows signature header (.ok record :: rows) step).next buffer).more =
        .error (.invalidValue step name cell) := by
  have hsnd := snd_fillState signature (List.replicate signature.length none) (header.zip record)
  simp only [next, ofRows, zip_columnsOf]
  rcases hfill : fillState (List.replicate signature.length none)
    (placed signature (header.zip record)) with ⟨s, _ | ⟨name, cell⟩⟩
  · rw [hfill] at hsnd
    refine absurd (fun x hx ↦ offends_eq_false_iff.1 ?_) h
    exact Bool.eq_false_iff.2 (List.find?_eq_none.1 hsnd.symm x hx)
  · rw [hfill] at hsnd
    obtain ⟨hoffends, before, after, hrow, hbefore⟩ := List.find?_eq_some_iff_append.1 hsnd.symm
    obtain ⟨hmem, hcell⟩ : name ∈ signature ∧ ¬∃ v, CellMeans cell v := by
      rw [← Classical.not_imp, ← offends_eq_false_iff (x := (name, cell)), hoffends]
      exact Bool.noConfusion
    refine ⟨name, cell, ⟨before, after, hrow, hmem, hcell, fun x hx ↦ ?_⟩, rfl⟩
    exact offends_eq_false_iff.1 (by simpa using hbefore x hx)

theorem more_next_eq_iff :
    ((ofRows signature header (.ok record :: rows) step).next buffer).more = .ok true ↔
      Readable signature (header.zip record) := by
  refine ⟨fun hmore ↦ ?_, fun h ↦ by rw [next_of_readable rows step buffer h]⟩
  by_contra h
  obtain ⟨name, cell, -, herror⟩ := next_of_not_readable rows step buffer h
  cases hmore.symm.trans herror

theorem mapsByName_next (hsig : signature.Nodup) :
    Reading.MapsByName signature (header.zip record) step
      ((ofRows signature header (.ok record :: rows) step).next buffer) where
  success_iff := more_next_eq_iff rows step buffer
  isState h := by
    rw [next_of_readable rows step buffer h]
    exact isState_toState hsig h
  failure := next_of_not_readable rows step buffer

end Next

variable {rows : List (Except Csv.Error (List String))} {step : Nat}

/-- The next state is that of the next row. -/
theorem delivered_cons_iff {s : State} {states : List State} {r : TraceReader} :
    (ofRows signature header (.ok record :: rows) step).Delivered (s :: states) r ↔
      Readable signature (header.zip record) ∧ toState signature (header.zip record) = s ∧
        (ofRows signature header rows (step + 1)).Delivered states r := by
  simp only [Delivered, more_next_eq_iff, exists_and_left]
  refine and_congr_right fun h ↦ ?_
  simp only [next_of_readable rows step _ h, exists_const]

/-- There is no state beyond the rows, nor at a row that is an error. -/
theorem exists_ok_of_delivered_cons {s : State} {states : List State} {r : TraceReader}
    (h : (ofRows signature header rows step).Delivered (s :: states) r) :
    ∃ record rest, rows = .ok record :: rest := by
  obtain ⟨buffer, hmore, -⟩ := h
  rcases rows with _ | ⟨e | record, rest⟩
  · cases hmore
  · cases hmore
  · exact ⟨record, rest, rfl⟩

theorem not_exists_delivered_cons (h : ∀ record rest, rows ≠ .ok record :: rest) (s : State)
    (states : List State) :
    ¬∃ r, (ofRows signature header rows step).Delivered (s :: states) r := by
  rintro ⟨r, hr⟩
  obtain ⟨record, rest, hrows⟩ := exists_ok_of_delivered_cons hr
  exact h record rest hrows

/-- Each state that was delivered is one row less, and one step more. -/
theorem eq_of_delivered {states : List State} {r : TraceReader}
    (h : (ofRows signature header rows step).Delivered states r) :
    r = ofRows signature header (rows.drop states.length) (step + states.length) := by
  induction states generalizing rows step with
  | nil => exact h
  | cons s states ih =>
    obtain ⟨record, rest, rfl⟩ := exists_ok_of_delivered_cons h
    rw [ih (delivered_cons_iff.1 h).2.2, List.length_cons, List.drop_succ_cons, Nat.add_assoc,
      Nat.add_comm 1]

end TraceReader

/-! ### The order of the columns, and columns that are not used -/

namespace NamedRow

variable {signature : Signature} {row row' : NamedRow} {s s' : State}

/-- The cells that matter. -/
def used (signature : Signature) (row : NamedRow) : NamedRow :=
  row.filter fun x ↦ decide (x.1 ∈ signature)

theorem mem_used {x : String × String} : x ∈ used signature row ↔ x ∈ row ∧ x.1 ∈ signature := by
  rw [used, List.mem_filter, decide_eq_true_iff]

theorem readable_iff : Readable signature row ↔ ∀ x ∈ used signature row, ∃ v, CellMeans x.2 v := by
  simp only [Readable, mem_used, and_imp]

/-- If no name is repeated, every column that matters is the last one with its name. -/
theorem IsState.exists_of_mem (hs : IsState signature row s)
    (hnodup : ((used signature row).map Prod.fst).Nodup) {i : Nat} {name cell : String}
    (hi : signature[i]? = some name) (hmem : (name, cell) ∈ row) :
    ∃ v, CellMeans cell v ∧ s[i]? = some v := by
  have hname : name ∈ signature := List.mem_of_getElem? hi
  obtain ⟨before, after, rfl⟩ := List.append_of_mem hmem
  refine hs.last hi rfl fun x hx heq ↦ ?_
  have hsplit : used signature (before ++ (name, cell) :: after) =
      used signature before ++ (name, cell) :: used signature after := by
    rw [used, List.filter_append, List.filter_cons_of_pos (by simpa using hname)]
    rfl
  rw [hsplit, List.map_append, List.map_cons, List.nodup_append] at hnodup
  have hx' : x.1 ∈ (used signature after).map Prod.fst :=
    List.mem_map_of_mem (mem_used.2 ⟨hx, heq ▸ hname⟩)
  exact (List.nodup_cons.1 hnodup.2.1).1 (heq ▸ hx')

/-- **Rows with the same cells that matter stand for the same state**, if no name is repeated. -/
theorem IsState.eq_of_perm (hs : IsState signature row s) (hs' : IsState signature row' s')
    (hperm : (used signature row).Perm (used signature row'))
    (hnodup : ((used signature row).map Prod.fst).Nodup) : s = s' := by
  have hnodup' := (hperm.map Prod.fst).nodup_iff.1 hnodup
  refine List.ext_getElem? fun i ↦ ?_
  rcases Nat.lt_or_ge i signature.length with hlt | hge
  · obtain ⟨name, hi⟩ : ∃ name, signature[i]? = some name := ⟨_, List.getElem?_eq_getElem hlt⟩
    have hmem_iff : ∀ cell, (name, cell) ∈ row ↔ (name, cell) ∈ row' := fun cell ↦ by
      have hiff := hperm.mem_iff (a := (name, cell))
      rwa [mem_used, mem_used, and_iff_left (List.mem_of_getElem? hi),
        and_iff_left (List.mem_of_getElem? hi)] at hiff
    by_cases hcolumn : ∃ cell, (name, cell) ∈ row
    · obtain ⟨cell, hcell⟩ := hcolumn
      obtain ⟨v, hv, hget⟩ := hs.exists_of_mem hnodup hi hcell
      obtain ⟨v', hv', hget'⟩ := hs'.exists_of_mem hnodup' hi ((hmem_iff cell).1 hcell)
      have heq : some v = some v' :=
        (cellValue?_eq_some_iff.2 hv).symm.trans (cellValue?_eq_some_iff.2 hv')
      rw [hget, hget', heq]
    · rw [hs.missing hi fun x hx heq ↦ hcolumn ⟨x.2, heq ▸ hx⟩,
        hs'.missing hi fun x hx heq ↦ hcolumn ⟨x.2, (hmem_iff x.2).2 (heq ▸ hx)⟩]
  · rw [List.getElem?_eq_none (hs.length_eq ▸ hge), List.getElem?_eq_none (hs'.length_eq ▸ hge)]

theorem map_fst_zip_sublist (header record : List String) :
    ((header.zip record).map Prod.fst).Sublist header := by
  induction header generalizing record with
  | nil => exact List.Sublist.refl []
  | cons name header ih =>
    cases record with
    | nil => exact List.nil_sublist _
    | cons cell record => exact (ih record).cons_cons name

theorem nodup_used {header : List String} (hheader : header.Nodup) (record : List String) :
    ((used signature (header.zip record)).map Prod.fst).Nodup :=
  ((List.filter_sublist.map Prod.fst).trans (map_fst_zip_sublist header record)).nodup hheader

end NamedRow

namespace TraceReader

open NamedRow

variable {signature : Signature}

/-- Rows under two headers that have the same cells that matter, in any order; or both are errors.
The columns of one header may be permuted together with the cells, and columns that are not named
like a variable may be added and removed. -/
def SameCells (signature : Signature) (header header' : List String) :
    Except Csv.Error (List String) → Except Csv.Error (List String) → Prop
  | .ok record, .ok record' =>
    (used signature (header.zip record)).Perm (used signature (header'.zip record'))
  | .error _, .error _ => True
  | _, _ => False

theorem exists_delivered_iff (hsig : signature.Nodup) {header header' : List String}
    (hheader : header.Nodup) {rows rows' : List (Except Csv.Error (List String))}
    (hrows : List.Forall₂ (SameCells signature header header') rows rows') (step : Nat)
    (states : List State) :
    (∃ r, (ofRows signature header rows step).Delivered states r) ↔
      ∃ r, (ofRows signature header' rows' step).Delivered states r := by
  induction hrows generalizing step states with
  | nil =>
    cases states with
    | nil => exact iff_of_true ⟨_, rfl⟩ ⟨_, rfl⟩
    | cons s states =>
      exact iff_of_false (not_exists_delivered_cons (by simp) s states)
        (not_exists_delivered_cons (by simp) s states)
  | @cons row row' rows rows' hrow hrows ih =>
    cases states with
    | nil => exact iff_of_true ⟨_, rfl⟩ ⟨_, rfl⟩
    | cons s states =>
      rcases row with e | record <;> rcases row' with e' | record'
      · exact iff_of_false (not_exists_delivered_cons (by simp) s states)
          (not_exists_delivered_cons (by simp) s states)
      · cases hrow
      · cases hrow
      · have hreadable : Readable signature (header.zip record) ↔
            Readable signature (header'.zip record') := by
          rw [readable_iff, readable_iff]
          exact forall_congr' fun x ↦ imp_congr_left hrow.mem_iff
        simp only [delivered_cons_iff, exists_and_left, ← hreadable, ih]
        refine and_congr_right fun h ↦ and_congr_left fun _ ↦ ?_
        rw [(isState_toState hsig h).eq_of_perm (isState_toState hsig (hreadable.1 h)) hrow
          (nodup_used hheader record)]

/-- The sheet that has the given columns, each one a name with the cells below it. Columns that are
shorter than the sheet are filled up with empty cells. -/
def sheetOf (columns : List (String × List String)) (height : Nat) : Csv.Sheet where
  header := columns.map Prod.fst
  rows := (List.range height).map fun k ↦ .ok (columns.map fun c ↦ c.2.getD k "")

/-- Columns that matter may change places, and others may come and go. -/
theorem sameCells_sheetOf {columns columns' : List (String × List String)}
    (h : (columns.filter fun c ↦ decide (c.1 ∈ signature)).Perm
      (columns'.filter fun c ↦ decide (c.1 ∈ signature))) (height : Nat) :
    List.Forall₂ (SameCells signature (sheetOf columns height).header
      (sheetOf columns' height).header) (sheetOf columns height).rows
      (sheetOf columns' height).rows := by
  have hused : ∀ (columns : List (String × List String)) (k : Nat),
      used signature ((columns.map Prod.fst).zip (columns.map fun c ↦ c.2.getD k "")) =
        (columns.filter fun c ↦ decide (c.1 ∈ signature)).map fun c ↦ (c.1, c.2.getD k "") := by
    intro columns k
    rw [List.zip_map', used, List.filter_map]
    rfl
  rw [sheetOf, sheetOf, List.forall₂_map_left_iff, List.forall₂_map_right_iff, List.forall₂_same]
  intro k _
  show List.Perm (used signature _) (used signature _)
  rw [hused, hused]
  exact h.map _

/-- **Rows are mapped onto the signature by the names of the columns alone.** As long as no call has
failed, the next row is read by name, whatever the buffers hold. So if no column is repeated, sheets
with the same cells that matter deliver the same states; in particular columns may be permuted, and
columns that are not named like a variable may be added and removed, whatever they hold. -/
theorem maps_rows_by_name (hsig : signature.Nodup) :
    (∀ {sheet : Csv.Sheet} {states : List State} {r : TraceReader},
      (ofSheet signature sheet).Delivered states r →
        ∀ {record : List String}, sheet.rows[states.length]? = some (.ok record) → ∀ buffer,
          (r.next buffer).MapsByName signature (sheet.header.zip record) states.length) ∧
    (∀ {sheet sheet' : Csv.Sheet}, sheet.header.Nodup →
      List.Forall₂ (SameCells signature sheet.header sheet'.header) sheet.rows sheet'.rows →
        ∀ states, (∃ r, (ofSheet signature sheet).Delivered states r) ↔
          ∃ r, (ofSheet signature sheet').Delivered states r) ∧
    ∀ {columns columns' : List (String × List String)}, (columns.map Prod.fst).Nodup →
      (columns.filter fun c ↦ decide (c.1 ∈ signature)).Perm
          (columns'.filter fun c ↦ decide (c.1 ∈ signature)) →
        ∀ height states,
          (∃ r, (ofSheet signature (sheetOf columns height)).Delivered states r) ↔
            ∃ r, (ofSheet signature (sheetOf columns' height)).Delivered states r := by
  refine ⟨?_, ?_, ?_⟩
  · intro sheet states r hdelivered record hrecord buffer
    have hr : r = ofRows signature sheet.header (sheet.rows.drop states.length)
        (0 + states.length) := eq_of_delivered hdelivered
    rw [Nat.zero_add] at hr
    obtain ⟨hlt, hget⟩ := List.getElem?_eq_some_iff.1 hrecord
    rw [hr, List.drop_eq_getElem_cons hlt, hget]
    exact mapsByName_next _ _ buffer hsig
  · intro sheet sheet' hheader hrows states
    exact exists_delivered_iff hsig hheader hrows 0 states
  · intro columns columns' hnodup hperm height states
    exact exists_delivered_iff hsig hnodup (sameCells_sheetOf hperm height) 0 states

/-- Two sheets with their columns in another order, one of them with a column that is not used. The
second row of both holds a cell that cannot be read. -/
theorem maps_rows_by_name_permuted :
    let signature : Signature := ["a", "b"]
    let columns := [("b", ["TRUE", ""]), ("x", ["junk", "junk"]), ("a", ["0", "maybe"])]
    let columns' := [("a", ["0", "maybe"]), ("b", ["TRUE", ""])]
    let sheet : Csv.Sheet :=
      ⟨["b", "x", "a"], [.ok ["TRUE", "junk", "0"], .ok ["", "junk", "maybe"]]⟩
    let sheet' : Csv.Sheet := ⟨["a", "b"], [.ok ["0", "TRUE"], .ok ["maybe", ""]]⟩
    let r := ofRows signature sheet.header [.ok ["", "junk", "maybe"]] 1
    signature.Nodup ∧ sheetOf columns 2 = sheet ∧ sheetOf columns' 2 = sheet' ∧
      (ofSheet signature sheet).Delivered [[some false, some true]] r ∧
      (r.next []).more = .error (.invalidValue 1 "a" "maybe") ∧
      (r.next []).MapsByName signature [("b", ""), ("x", "junk"), ("a", "maybe")] 1 ∧
      (∃ r', (ofSheet signature sheet').Delivered [[some false, some true]] r') ∧
      ∀ s, ¬∃ r', (ofSheet signature sheet').Delivered [[some false, some true], s] r' := by
  intro signature columns columns' sheet sheet' r
  have hsig : signature.Nodup := by decide
  have hnodup : (columns.map Prod.fst).Nodup := by decide
  have hperm : (columns.filter fun c ↦ decide (c.1 ∈ signature)).Perm
      (columns'.filter fun c ↦ decide (c.1 ∈ signature)) := by decide
  have hreadable : Readable signature (sheet.header.zip ["TRUE", "junk", "0"]) :=
    (more_next_eq_iff [] 0 []).1 (by decide +kernel)
  have hdelivered : (ofSheet signature sheet).Delivered [[some false, some true]] r :=
    delivered_cons_iff.2 ⟨hreadable, by decide +kernel, rfl⟩
  have hfails : (r.next []).more = .error (.invalidValue 1 "a" "maybe") := by decide +kernel
  obtain ⟨hmaps, -, hcolumns⟩ := maps_rows_by_name hsig
  refine ⟨hsig, rfl, rfl, hdelivered, hfails, hmaps hdelivered rfl [],
    (hcolumns hnodup hperm 2 _).1 ⟨r, hdelivered⟩, fun s hs ↦ ?_⟩
  -- a second state of one sheet would be a second state of the other
  obtain ⟨r', hr'⟩ := (hcolumns hnodup hperm 2 _).2 hs
  have hsecond : Readable signature (sheet.header.zip ["", "junk", "maybe"]) :=
    (delivered_cons_iff.1 (delivered_cons_iff.1 hr').2.2).1
  cases ((more_next_eq_iff [] 1 []).2 hsecond).symm.trans hfails

/-- Of two columns with one name the last one counts, and what the buffer held is gone. -/
example :
    let reading := (ofSheet ["b", "a"]
      ⟨["a", "x", "a"], [.ok ["1", "?", "False"]]⟩).next [some true, some true, none]
    reading.more = .ok true ∧ reading.buffer = [none, some false] := by
  decide +kernel

end TraceReader

end TemporalMonitor
