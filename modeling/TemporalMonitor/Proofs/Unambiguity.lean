import TemporalMonitor.Proofs.AnnotatedTrace
import TemporalMonitor.Proofs.Renaming
import TemporalMonitor.Proofs.Spelling

/-!
# Printed formulas are unambiguous

The text of a formula determines the formula, over positions and over names
(`Formula.determined_by_text`). Formulas are written as a word with operands in parentheses, and the
operands stand side by side, so the text of an operand has to show where it ends
(`Formula.Spells.selfDelimiting`). Commas, parentheses and quotes in a name do no harm, because a
name is quoted.

Both written forms are of this kind, since they differ in what stands around two operands only
(`Formula.Spells`). So a cell of an annotated trace tells what is left of a guarantee, as long as no
name is in two places of the signature, and a record of the log tells what a formula became.
-/

namespace TemporalMonitor

open Text

theorem selfDelimiting_boolText : SelfDelimiting fun b ↦ boolText b ++ ")" := by
  have hinj : ∀ b b' : Bool, boolText b = boolText b' → b = b' := by decide
  exact selfDelimiting_of_injective rfl (fun b b' ↦ hinj b b') (by decide)

theorem selfDelimiting_written_nat : SelfDelimiting fun n : Nat ↦ Written.written n ++ ")" :=
  selfDelimiting_repr rfl fun _ ↦ Nat.digitChar_ne ')' rfl

theorem selfDelimiting_written_string :
    SelfDelimiting fun name : String ↦ Written.written name ++ ")" :=
  selfDelimiting_quote.append ")"

namespace Formula

/-! ### The text of a formula -/

section Text

variable {α : Type} {l r : String} {write : Formula α → String}

/-- The word that stands in front of the parentheses. -/
def word : Formula α → String
  | const _ => "Const"
  | var _ => "Var"
  | neg _ => "Not"
  | conj _ _ => "And"
  | disj _ _ => "Or"
  | next _ => "Next"
  | eventually _ => "Eventually"
  | always _ => "Always"
  | strongUntil _ _ => "Until"

theorem paren_not_mem_word (f : Formula α) : '(' ∉ f.word.toList := by
  cases f <;> simp [word]

/-- Two operands between the same texts. -/
theorem operands_inj {f f' g g' : Formula α} {rest rest' : String}
    (hf : ∀ ⦃g : Formula α⦄ ⦃rest rest' : String⦄, write f ++ rest = write g ++ rest' → f = g)
    (hf' : ∀ ⦃g : Formula α⦄ ⦃rest rest' : String⦄, write f' ++ rest = write g ++ rest' → f' = g)
    (h : l ++ write f ++ ", " ++ write f' ++ r ++ rest =
      l ++ write g ++ ", " ++ write g' ++ r ++ rest') : f = g ∧ f' = g' := by
  simp only [String.append_assoc, String.append_right_inj] at h
  obtain rfl := hf h
  rw [String.append_right_inj, String.append_right_inj] at h
  exact ⟨rfl, hf' h⟩

variable [Written α]

/-- What stands between the parentheses, if formulas are written by `write` and two operands stand
between `l` and `r`. -/
def inner (l r : String) (write : Formula α → String) : Formula α → String
  | const b => boolText b
  | var a => Written.written a
  | neg f | next f | eventually f | always f => write f
  | conj f g | disj f g | strongUntil f g => l ++ write f ++ ", " ++ write g ++ r

/-- A formula is written as a word with operands in parentheses. -/
def Spells (l r : String) (write : Formula α → String) : Prop :=
  ∀ f, write f = f.word ++ "(" ++ inner l r write f ++ ")"

theorem spells_render : Spells "" "" (render : Formula α → String) := by
  intro f
  apply String.toList_injective
  cases f <;> simp [render, word, inner]

theorem spells_inspect : Spells "(" ")" (inspect : Formula α → String) := by
  intro f
  apply String.toList_injective
  cases f <;> simp [inspect, word, inner]

/-- The word and what stands between the parentheses can be told apart. -/
theorem Spells.append_inj (h : Spells l r write) {f g : Formula α} {rest rest' : String}
    (hfg : write f ++ rest = write g ++ rest') :
    f.word = g.word ∧
      inner l r write f ++ (")" ++ rest) = inner l r write g ++ (")" ++ rest') := by
  have hparts : f.word ++ "(" ++ (inner l r write f ++ (")" ++ rest)) =
      g.word ++ "(" ++ (inner l r write g ++ (")" ++ rest')) := by
    rw [h f, h g] at hfg
    simpa only [String.append_assoc] using hfg
  exact append_mark_inj rfl f.paren_not_mem_word g.paren_not_mem_word hparts

/-- **The text of a formula shows where it ends**, if the text of a variable does in front of a
closing parenthesis. -/
theorem Spells.selfDelimiting (hα : SelfDelimiting fun a : α ↦ Written.written a ++ ")")
    (hwrite : Spells l r write) : SelfDelimiting write := by
  intro f g rest rest' h
  induction f generalizing g rest rest' with
  | const b =>
    obtain ⟨hword, hinner⟩ := hwrite.append_inj h
    cases g with
    | const b' =>
      rw [← String.append_assoc, ← String.append_assoc] at hinner
      exact congrArg const (selfDelimiting_boolText hinner)
    | _ => simp [word] at hword
  | var a =>
    obtain ⟨hword, hinner⟩ := hwrite.append_inj h
    cases g with
    | var a' =>
      rw [← String.append_assoc, ← String.append_assoc] at hinner
      exact congrArg var (hα hinner)
    | _ => simp [word] at hword
  | neg f ih =>
    obtain ⟨hword, hinner⟩ := hwrite.append_inj h
    cases g with
    | neg g => exact congrArg neg (ih hinner)
    | _ => simp [word] at hword
  | next f ih =>
    obtain ⟨hword, hinner⟩ := hwrite.append_inj h
    cases g with
    | next g => exact congrArg next (ih hinner)
    | _ => simp [word] at hword
  | eventually f ih =>
    obtain ⟨hword, hinner⟩ := hwrite.append_inj h
    cases g with
    | eventually g => exact congrArg eventually (ih hinner)
    | _ => simp [word] at hword
  | always f ih =>
    obtain ⟨hword, hinner⟩ := hwrite.append_inj h
    cases g with
    | always g => exact congrArg always (ih hinner)
    | _ => simp [word] at hword
  | conj f f' ih ih' =>
    obtain ⟨hword, hinner⟩ := hwrite.append_inj h
    cases g with
    | conj g g' =>
      obtain ⟨rfl, rfl⟩ := operands_inj ih ih' hinner
      rfl
    | _ => simp [word] at hword
  | disj f f' ih ih' =>
    obtain ⟨hword, hinner⟩ := hwrite.append_inj h
    cases g with
    | disj g g' =>
      obtain ⟨rfl, rfl⟩ := operands_inj ih ih' hinner
      rfl
    | _ => simp [word] at hword
  | strongUntil f f' ih ih' =>
    obtain ⟨hword, hinner⟩ := hwrite.append_inj h
    cases g with
    | strongUntil g g' =>
      obtain ⟨rfl, rfl⟩ := operands_inj ih ih' hinner
      rfl
    | _ => simp [word] at hword

end Text

/-- A formula over positions is determined by its text. -/
theorem selfDelimiting_render_nat : SelfDelimiting (render : Formula Nat → String) :=
  spells_render.selfDelimiting selfDelimiting_written_nat

/-- A formula over names is determined by its text. -/
theorem selfDelimiting_render_string : SelfDelimiting (render : Formula String → String) :=
  spells_render.selfDelimiting selfDelimiting_written_string

theorem selfDelimiting_inspect_nat : SelfDelimiting (inspect : Formula Nat → String) :=
  spells_inspect.selfDelimiting selfDelimiting_written_nat

end Formula

/-! ### Annotated traces -/

theorem observationCell_injective : Function.Injective observationCell := by
  rintro (_ | _ | _) (_ | _ | _) h <;> first | rfl | exact absurd h (by decide)

/-- A cell tells whether a guarantee is settled, and what is left of it otherwise. -/
theorem Progression.cell_injective : Function.Injective Progression.cell := by
  have hne : ∀ (b : Bool) (f : Formula String), boolText b ≠ f.render := by
    intro b f h
    have hparen : '(' ∈ (boolText b).toList := by
      rw [h, Formula.spells_render f]
      simp
    cases b <;> exact absurd hparen (by decide)
  intro q q' h
  cases q with
  | verdict b =>
    cases q' with
    | verdict b' => exact congrArg verdict (selfDelimiting_boolText (congrArg (· ++ ")" ++ "") h))
    | residual f' => exact absurd h (hne b f')
  | residual f =>
    cases q' with
    | verdict b' => exact absurd h.symm (hne b' f)
    | residual f' => exact congrArg residual (Formula.selfDelimiting_render_string.injective h)

theorem forall₂_of_mapM_eq_ok {α β ε : Type} {f : α → Except ε β} {as : List α} {bs : List β}
    (h : as.mapM f = .ok bs) : List.Forall₂ (fun a b ↦ f a = .ok b) as bs := by
  induction as generalizing bs with
  | nil =>
    cases h
    exact .nil
  | cons a as ih =>
    rw [List.mapM_cons] at h
    cases ha : f a with
    | error e => rw [ha] at h; cases h
    | ok b =>
      cases has : as.mapM f with
      | error e => rw [ha, has] at h; cases h
      | ok bs' =>
        rw [ha, has] at h
        cases h
        exact .cons ha (ih has)

/-- Positions that are renamed to names are read as these names. -/
theorem Signature.reads_of_mapM_name {sig : Signature} {g : Formula Nat} {f : Formula String}
    (h : g.mapM sig.name = .ok f) : sig.Reads g f := by
  induction g generalizing f with
  | const b =>
    cases h
    rfl
  | var i =>
    rw [Formula.mapM, name] at h
    cases hi : sig.name? i with
    | none => rw [hi] at h; cases h
    | some a =>
      rw [hi] at h
      cases h
      exact congrArg Formula.var hi
  | neg g ih | next g ih | eventually g ih | always g ih =>
    rw [Formula.mapM] at h
    cases hg : g.mapM sig.name with
    | error e => rw [hg] at h; cases h
    | ok f' =>
      have hmap : g.map sig.name? = f'.map some := ih hg
      rw [hg] at h
      cases h
      rw [Reads, Formula.map, Formula.map, hmap]
  | conj g g' ih ih' | disj g g' ih ih' | strongUntil g g' ih ih' =>
    rw [Formula.mapM] at h
    cases hg : g.mapM sig.name with
    | error e => rw [hg] at h; cases h
    | ok f₁ =>
      cases hg' : g'.mapM sig.name with
      | error e => rw [hg, hg'] at h; cases h
      | ok f₂ =>
        have hmap : g.map sig.name? = f₁.map some := ih hg
        have hmap' : g'.map sig.name? = f₂.map some := ih' hg'
        rw [hg, hg'] at h
        cases h
        rw [Reads, Formula.map, Formula.map, hmap, hmap']

theorem Progression.map_eq_of_named {sig : Signature} {q : Progression Nat}
    {r : Progression String} (h : q.named sig = .ok r) : q.map sig.name? = r.map some := by
  cases q with
  | verdict b =>
    cases h
    rfl
  | residual g =>
    rw [named] at h
    cases hg : g.mapM sig.name with
    | error e => rw [hg] at h; cases h
    | ok f =>
      rw [hg] at h
      cases h
      exact congrArg residual (Signature.reads_of_mapM_name hg)

/-- If no name is in two places, then positions can be told from their names. -/
theorem Progression.named_inj {sig : Signature} (hsig : sig.Nodup) {q q' : Progression Nat}
    {r : Progression String} (h : q.named sig = .ok r) (h' : q'.named sig = .ok r) : q = q' := by
  have hq := map_eq_of_named h
  have hq' := map_eq_of_named h'
  cases q with
  | verdict b =>
    cases q' with
    | verdict b' => exact congrArg verdict (verdict.inj (hq.trans hq'.symm))
    | residual g' => cases hq.trans hq'.symm
  | residual g =>
    cases q' with
    | verdict b' => cases hq.trans hq'.symm
    | residual g' =>
      cases r with
      | verdict b => cases hq
      | residual f =>
        have hg : sig.Reads g f := residual.inj hq
        have hg' : sig.Reads g' f := residual.inj hq'
        exact congrArg residual (Formula.injOn_map (Signature.injOn_name? hsig)
          (fun _ hi ↦ hg.lt_length hi) (fun _ hi ↦ hg'.lt_length hi) (hg.trans hg'.symm))

namespace TracePrinter

/-- **A row determines the step, the state and what is left of every guarantee.** -/
theorem row_inj {p : TracePrinter} (hsig : p.catalogue.signature.Nodup) {step step' : Nat}
    {s s' : State} (hlength : s.length = s'.length) {o o' : Oracle} {cells : List String}
    (h : p.row step s o = .ok cells) (h' : p.row step' s' o' = .ok cells) :
    step = step' ∧ s = s' ∧ o.guarantees = o'.guarantees := by
  obtain ⟨gs, hgs, rfl⟩ := exists_named_of_row h
  obtain ⟨gs', hgs', hcells⟩ := exists_named_of_row h'
  obtain ⟨hstep, hrest⟩ := List.cons.inj hcells
  obtain ⟨hstate, hguarantees⟩ := List.append_inj hrest (by simpa using hlength)
  obtain rfl : gs = gs' := Progression.cell_injective.list_map hguarantees
  refine ⟨?_, observationCell_injective.list_map hstate, ?_⟩
  · exact selfDelimiting_written_nat.injective (congrArg (· ++ ")") hstep)
  · have hunique : Relator.LeftUnique fun (q : Progression Nat) r ↦
        q.named p.catalogue.signature = .ok r := fun _ _ _ ↦ Progression.named_inj hsig
    exact hunique.forall₂ (forall₂_of_mapM_eq_ok hgs) (forall₂_of_mapM_eq_ok hgs')

end TracePrinter

/-! ### The log -/

theorem Progression.inspect_injective :
    Function.Injective (Progression.inspect : Progression Nat → String) := by
  have hne : ∀ text text' : String, "Verdict(" ++ text ≠ "Residual(" ++ text' := by
    intro text text' h
    simpa using congrArg String.toList h
  intro q q' h
  cases q with
  | verdict b =>
    cases q' with
    | verdict b' =>
      rw [inspect, inspect, String.append_assoc, String.append_assoc, String.append_right_inj] at h
      exact congrArg verdict (selfDelimiting_boolText.injective h)
    | residual f' =>
      rw [inspect, inspect, String.append_assoc, String.append_assoc] at h
      exact absurd h (hne _ _)
  | residual f =>
    cases q' with
    | verdict b' =>
      rw [inspect, inspect, String.append_assoc, String.append_assoc] at h
      exact absurd h.symm (hne _ _)
    | residual f' =>
      rw [inspect, inspect, String.append_assoc, String.append_assoc, String.append_right_inj] at h
      exact congrArg residual (Formula.selfDelimiting_inspect_nat h)

/-- The text of the record that a formula was progressed. -/
def progressedText (step : Nat) (f : Formula Nat) (q : Progression Nat) : String :=
  "step " ++ step.repr ++ ": " ++ f.render ++ " progressed to " ++ q.inspect

theorem progressedText_inj {m n : Nat} {f g : Formula Nat} {q r : Progression Nat}
    (h : progressedText m f q = progressedText n g r) : m = n ∧ f = g ∧ q = r := by
  have hstep : SelfDelimiting fun n : Nat ↦ n.repr ++ ": " :=
    selfDelimiting_repr rfl fun _ ↦ Nat.digitChar_ne ':' rfl
  have htexts : m.repr ++ ": " ++ (f.render ++ (" progressed to " ++ q.inspect)) =
      n.repr ++ ": " ++ (g.render ++ (" progressed to " ++ r.inspect)) := by
    simpa only [progressedText, String.append_assoc, String.append_right_inj] using h
  obtain ⟨rfl, hformulas⟩ := hstep.append_inj htexts
  obtain ⟨rfl, hresults⟩ := Formula.selfDelimiting_render_nat.append_inj hformulas
  exact ⟨rfl, rfl, Progression.inspect_injective ((String.append_right_inj _).1 hresults)⟩

theorem text_of_mem_advanceLog {step : Nat} {s : State} {final : Bool} {f : Formula Nat}
    {r : LogRecord} (hr : r ≠ requestRecord)
    (h : r ∈ (Progression.residual f).advanceLog step s final) :
    r.text = progressedText step f (f.progress s.value final) := by
  rcases List.mem_append.1 h with h | h
  · exact absurd (List.eq_of_mem_replicate h) hr
  · rw [List.mem_singleton.1 h]
    rfl

/-- **Printed formulas are unambiguous**: a formula over positions or over names is determined by
its text. So a row of an annotated trace determines what is left of every guarantee, and a record of
a step determines what was progressed, and to what. -/
theorem Formula.determined_by_text :
    (∀ f g : Formula Nat, f.render = g.render → f = g) ∧
    (∀ f g : Formula String, f.render = g.render → f = g) ∧
    (∀ p : TracePrinter, p.catalogue.signature.Nodup → ∀ (step step' : Nat) (s s' : State)
      (o o' : Oracle) (cells : List String), s.length = s'.length →
        p.row step s o = .ok cells → p.row step' s' o' = .ok cells →
          step = step' ∧ s = s' ∧ o.guarantees = o'.guarantees) ∧
    (∀ r : LogRecord, r ≠ requestRecord → ∀ (step step' : Nat) (s s' : State)
      (final final' : Bool) (f f' : Formula Nat),
        r ∈ (Progression.residual f).advanceLog step s final →
        r ∈ (Progression.residual f').advanceLog step' s' final' →
          step = step' ∧ f = f' ∧ f.progress s.value final = f'.progress s'.value final') := by
  refine ⟨fun f g h ↦ selfDelimiting_render_nat.injective h,
    fun f g h ↦ selfDelimiting_render_string.injective h,
    fun p hsig _ _ _ _ _ _ _ hlength h h' ↦ TracePrinter.row_inj hsig hlength h h', ?_⟩
  intro r hr step step' s s' final final' f f' h h'
  exact progressedText_inj ((text_of_mem_advanceLog hr h).symm.trans (text_of_mem_advanceLog hr h'))

/-- A name that looks like the end of one variable and the start of another one, in a row that two
oracles share, and a record that two states share. -/
theorem Formula.determined_by_text_quoted :
    let name := "a\"), Var(\"b"
    let p : TracePrinter := ⟨"out", "t", ⟨[name, "b"], ["q"], ["q"]⟩⟩
    let o : Oracle := ⟨[], [.residual (.conj (.var 0) (.var 1))], 1⟩
    let o' : Oracle := ⟨[.verdict true], [.residual (.conj (.var 0) (.var 1))], 7⟩
    let cells := ["1", "true", "", "And(Var(\"a\\\"), Var(\\\"b\"), Var(\"b\"))"]
    let r : LogRecord := .plain .trace
      "step 2: Eventually(Var(0)) progressed to Residual(Eventually(Var(0)))"
    (conj (var name) (var "b")).render ≠ (conj (var "a") (conj (var "b") (var "b"))).render ∧
      (neg (var 12)).render ≠ (neg (var 1)).render ∧
      p.row 1 [some true, none] o = .ok cells ∧ p.row 1 [some true, none] o' = .ok cells ∧
      o.guarantees = o'.guarantees ∧
      r ∈ (Progression.residual (.eventually (.var 0))).advanceLog 2 [some false] false ∧
      r ∈ (Progression.residual (.eventually (.var 0))).advanceLog 2 [none, some true] false ∧
      (Formula.eventually (.var 0)).progress (State.value [some false]) false =
        (Formula.eventually (.var 0)).progress (State.value [none, some true]) false := by
  intro name p o o' cells r
  obtain ⟨hnat, hstring, hrow, hlog⟩ := determined_by_text
  have ho : p.row 1 [some true, none] o = .ok cells := by decide +kernel
  have ho' : p.row 1 [some true, none] o' = .ok cells := by decide +kernel
  have hr : r ∈ (Progression.residual (.eventually (.var 0))).advanceLog 2 [some false] false := by
    decide +kernel
  have hr' : r ∈
      (Progression.residual (.eventually (.var 0))).advanceLog 2 [none, some true] false := by
    decide +kernel
  exact ⟨fun h ↦ absurd (hstring _ _ h) (by decide), fun h ↦ absurd (hnat _ _ h) (by decide), ho,
    ho', (hrow p (by decide) 1 1 _ _ o o' cells rfl ho ho').2.2, hr, hr',
    (hlog r (by decide) 2 2 _ _ false false _ _ hr hr').2.2⟩

end TemporalMonitor
