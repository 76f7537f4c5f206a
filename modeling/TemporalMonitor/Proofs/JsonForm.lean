import Mathlib.Data.List.Forall2
import TemporalMonitor.Proofs.JsonText
import TemporalMonitor.Properties.Reader

/-!
# The JSON form of formulas

A formula has one form as a JSON value (`Formula.toJson`). Reading accepts the tokens of this form
and of no other value: neither another operator or number of operands, nor a second key, nor a
string or an array in the place of a formula, at any depth (`accepts_formula`).

Readers are described by what they accept (`Accepts`): the values that they take, and what they make
of each, whatever follows. The reader of formulas is put together from smaller ones, and so is what
it accepts. How deep objects and arrays may be nested is part of the description.
-/

namespace TemporalMonitor

namespace Json

namespace Value

mutual

/-- How many objects and arrays are open at a time, at most. -/
def nesting : Value → Nat
  | null | bool _ | number _ | string _ => 0
  | array vs => nestingOfElements vs + 1
  | object fields => nestingOfFields fields + 1

/-- The nesting of the elements of an array. -/
def nestingOfElements : List Value → Nat
  | [] => 0
  | v :: vs => max v.nesting (nestingOfElements vs)

/-- The nesting of the fields of an object. -/
def nestingOfFields : List (String × Value) → Nat
  | [] => 0
  | (_, v) :: fields => max v.nesting (nestingOfFields fields)

end

end Value

end Json

namespace Formula

open Json (Value)

/-- The JSON form of a formula. -/
def toJson : Formula String → Value
  | const b => .object [("const", .bool b)]
  | var s => .object [("var", .string s)]
  | neg f => .object [("not", f.toJson)]
  | conj f g => .object [("and", .array [f.toJson, g.toJson])]
  | disj f g => .object [("or", .array [f.toJson, g.toJson])]
  | next f => .object [("next", f.toJson)]
  | eventually f => .object [("eventually", f.toJson)]
  | always f => .object [("always", f.toJson)]
  | strongUntil f g => .object [("until", .array [f.toJson, g.toJson])]

end Formula

namespace Json

/-! ### What readers accept -/

/-- The reader takes exactly the values that are related to something, and makes this of each. It
reads the tokens of the value and no more. -/
def Accepts {α : Type} (read : List Token → Except Fault (α × List Token))
    (form : Value → α → Prop) : Prop :=
  ∀ v rest a rest', read (v.tokens ++ rest) = .ok (a, rest') ↔ form v a ∧ rest' = rest

theorem bind_eq_ok_iff {α β : Type} {x : Except Fault α} {k : α → Except Fault β} {b : β} :
    (x >>= k) = .ok b ↔ ∃ a, x = .ok a ∧ k a = .ok b := by
  refine ⟨ok_of_bind, ?_⟩
  rintro ⟨a, rfl, h⟩
  exact h

theorem map_eq_ok_iff {α β : Type} {x : Except Fault α} {g : α → β} {b : β} :
    x.map g = .ok b ↔ ∃ a, x = .ok a ∧ g a = b := by
  cases x <;> simp [Except.map]

namespace Accepts

variable {α β : Type} {read : List Token → Except Fault (α × List Token)}
  {form form' : Value → α → Prop}

theorem congr (h : Accepts read form) (hform : ∀ v a, form v a ↔ form' v a) :
    Accepts read form' := by
  intro v rest a rest'
  rw [h v rest a rest', hform]

theorem map (h : Accepts read form) (g : α → β) :
    Accepts (fun ts ↦ (read ts).map fun (a, ts) ↦ (g a, ts)) fun v b ↦ ∃ a, form v a ∧ g a = b := by
  intro v rest b rest'
  simp only [map_eq_ok_iff, Prod.exists, h v rest, Prod.mk.injEq]
  grind

/-- Where a value is not one of those, there is a fault. -/
theorem error_of_forall_not (h : Accepts read form) {v : Value} (hv : ∀ a, ¬form v a)
    (rest : List Token) : ∃ e, read (v.tokens ++ rest) = .error e := by
  cases hx : read (v.tokens ++ rest) with
  | error e => exact ⟨e, rfl⟩
  | ok p => exact absurd ((h v rest p.1 p.2).1 hx).1 (hv p.1)

end Accepts

theorem accepts_bool : Accepts bool fun v b ↦ v = .bool b := by
  intro v rest b rest'
  cases v with
  | array vs => cases vs <;> simp [Value.tokens, bool]
  | object fields => cases fields <;> simp [Value.tokens, bool]
  | _ => simp [Value.tokens, bool, eq_comm]

theorem accepts_string : Accepts string fun v s ↦ v = .string s := by
  intro v rest s rest'
  cases v with
  | array vs => cases vs <;> simp [Value.tokens, string]
  | object fields => cases fields <;> simp [Value.tokens, string]
  | _ => simp [Value.tokens, string, eq_comm]

/-! ### Arrays -/

/-- No value starts with the end of an array. -/
theorem Value.exists_tokens_eq_cons (v : Value) :
    ∃ t ts, v.tokens = t :: ts ∧ t ≠ .endArray := by
  cases v with
  | array vs => cases vs <;> simp [tokens]
  | object fields =>
    cases fields with
    | nil => simp [tokens]
    | cons field fields => simp [tokens]
  | _ => simp [tokens]

theorem nextElement_true_tokens (v : Value) (ts : List Token) :
    nextElement true (v.tokens ++ ts) = .ok (some (v.tokens ++ ts)) := by
  obtain ⟨t, us, hv, ht⟩ := v.exists_tokens_eq_cons
  simp [hv, nextElement]

theorem nextElement_false_comma (v : Value) (ts : List Token) :
    nextElement false (.comma :: (v.tokens ++ ts)) = .ok (some (v.tokens ++ ts)) := by
  obtain ⟨t, us, hv, ht⟩ := v.exists_tokens_eq_cons
  simp [hv, nextElement, ht]

theorem needElement_eq_ok_iff {first : Bool} {ts us : List Token} :
    needElement first ts = .ok us ↔ nextElement first ts = .ok (some us) := by
  unfold needElement
  split <;> simp_all

theorem needElement_true_tokens {v : Value} {ts us : List Token} :
    needElement true (v.tokens ++ ts) = .ok us ↔ v.tokens ++ ts = us := by
  simp [needElement_eq_ok_iff, nextElement_true_tokens]

theorem needElement_false_elementTokens {vs : List Value} {rest us : List Token} :
    needElement false (Value.elementTokens vs ++ .endArray :: rest) = .ok us ↔
      ∃ v vs', vs = v :: vs' ∧ v.tokens ++ (Value.elementTokens vs' ++ .endArray :: rest) = us := by
  cases vs with
  | nil => simp [Value.elementTokens, needElement_eq_ok_iff, nextElement]
  | cons v vs =>
    simp [Value.elementTokens, needElement_eq_ok_iff, nextElement_false_comma, and_assoc]

theorem expect_endArray_elementTokens {vs : List Value} {rest us : List Token} :
    expect .endArray (Value.elementTokens vs ++ .endArray :: rest) = .ok us ↔
      vs = [] ∧ rest = us := by
  cases vs <;> simp [Value.elementTokens, expect]

/-- A pair is read from an array of two elements, one from each. -/
theorem accepts_pair {read : FormulaReader} {form : Value → Formula String → Prop}
    (hread : Accepts read form) (apply : Formula String → Formula String → Formula String) :
    Accepts (pair (some read) apply) fun v f ↦
      ∃ v₁ v₂ f₁ f₂, v = .array [v₁, v₂] ∧ form v₁ f₁ ∧ form v₂ f₂ ∧ apply f₁ f₂ = f := by
  intro v rest f rest'
  constructor
  · intro h
    cases v with
    | array vs =>
      cases vs with
      | nil => simp [Value.tokens, pair, bind_eq_ok_iff, needElement_eq_ok_iff, nextElement] at h
      | cons v₁ vs =>
        simp only [Value.tokens, List.cons_append, List.append_assoc, List.nil_append, pair] at h
        obtain ⟨ts₁, h₁, h⟩ := ok_of_bind h
        obtain ⟨⟨f₁, ts₂⟩, h₂, h⟩ := ok_of_bind h
        obtain ⟨ts₃, h₃, h⟩ := ok_of_bind h
        obtain ⟨⟨f₂, ts₄⟩, h₄, h⟩ := ok_of_bind h
        obtain ⟨ts₅, h₅, h⟩ := ok_of_bind h
        obtain rfl := needElement_true_tokens.1 h₁
        obtain ⟨hf₁, rfl⟩ := (hread ..).1 h₂
        obtain ⟨v₂, vs', rfl, rfl⟩ := needElement_false_elementTokens.1 h₃
        obtain ⟨hf₂, rfl⟩ := (hread ..).1 h₄
        obtain ⟨rfl, rfl⟩ := expect_endArray_elementTokens.1 h₅
        simp only [Except.ok.injEq, Prod.mk.injEq] at h
        exact ⟨⟨v₁, v₂, f₁, f₂, rfl, hf₁, hf₂, h.1⟩, h.2.symm⟩
    | object fields => cases fields <;> simp [Value.tokens, pair] at h
    | _ => simp [Value.tokens, pair] at h
  · rintro ⟨⟨v₁, v₂, f₁, f₂, rfl, hf₁, hf₂, rfl⟩, rfl⟩
    simp only [Value.tokens, List.cons_append, List.append_assoc, List.nil_append, pair,
      bind_eq_ok_iff]
    exact ⟨_, needElement_true_tokens.2 rfl, _, (hread ..).2 ⟨hf₁, rfl⟩,
      _, needElement_false_elementTokens.2 ⟨v₂, [], rfl, rfl⟩, _, (hread ..).2 ⟨hf₂, rfl⟩,
      _, expect_endArray_elementTokens.2 ⟨rfl, rfl⟩, rfl⟩

theorem elements_endArray {α : Type} (r : Reader α) (first : Bool) (rest : List Token) :
    elements r first (.endArray :: rest) = .ok ([], rest) := by
  have hnext : nextElement first (.endArray :: rest) = .ok none := by simp [nextElement]
  rw [elements]
  split <;> simp_all

theorem elements_eq_ok_iff {α : Type} {r : Reader α} {first : Bool} {ts us rest : List Token}
    {as : List α} (hnext : nextElement first ts = .ok (some us)) :
    elements r first ts = .ok (as, rest) ↔
      ∃ a us' as', r.read us = .ok (a, us') ∧ elements r false us' = .ok (as', rest) ∧
        a :: as' = as := by
  rw [elements]
  split
  case h_3 us' hnext' =>
    obtain rfl : us' = us := by simpa [hnext] using hnext'.symm
    split <;> simp_all [map_eq_ok_iff]
  all_goals simp_all

section Elements

variable {α : Type} {r : Reader α} {form : Value → α → Prop}

/-- One element is read, and then those behind it. -/
theorem elements_cons (hr : Accepts r.read form) {first : Bool} {v : Value} {vs : List Value}
    {as : List α} {ts us rest rest' : List Token}
    (hnext : nextElement first ts = .ok (some (v.tokens ++ us)))
    (htail : ∀ as, elements r false us = .ok (as, rest') ↔
      List.Forall₂ form vs as ∧ rest' = rest) :
    elements r first ts = .ok (as, rest') ↔ List.Forall₂ form (v :: vs) as ∧ rest' = rest := by
  rw [elements_eq_ok_iff hnext, List.forall₂_cons_left_iff]
  simp only [hr v _]
  grind

theorem elements_elementTokens (hr : Accepts r.read form) (vs : List Value) (as : List α)
    (rest rest' : List Token) :
    elements r false (Value.elementTokens vs ++ .endArray :: rest) = .ok (as, rest') ↔
      List.Forall₂ form vs as ∧ rest' = rest := by
  induction vs generalizing as with
  | nil => simp [Value.elementTokens, elements_endArray, eq_comm]
  | cons v vs ih =>
    rw [Value.elementTokens, List.cons_append, List.append_assoc]
    exact elements_cons hr (nextElement_false_comma v _) ih

end Elements

/-- An array is read element by element. -/
theorem accepts_array {α : Type} {r : Nat → Reader α} {depth : Nat} {form : Value → α → Prop}
    (hr : Accepts (r depth).read form) :
    Accepts (array (depth + 1) r) fun v as ↦ ∃ vs, v = .array vs ∧ List.Forall₂ form vs as := by
  intro v rest as rest'
  cases v with
  | array vs =>
    cases vs with
    | nil => simp [Value.tokens, array, elements_endArray, eq_comm]
    | cons v vs =>
      simp only [Value.tokens, List.cons_append, List.append_assoc, List.nil_append, array,
        Value.array.injEq, exists_eq_left']
      exact elements_cons hr (nextElement_true_tokens v _)
        fun as ↦ elements_elementTokens hr vs as rest rest'
  | object fields => cases fields <;> simp [Value.tokens, array]
  | _ => simp [Value.tokens, array]

/-! ### Formulas -/

/-- What stands under an operator: `below` where a formula stands one level further in, `inArray`
where it stands two levels further in. -/
def Operator.Takes (below inArray : Value → Formula String → Prop) :
    Operator → Value → Formula String → Prop
  | const, v, f => ∃ b, v = .bool b ∧ .const b = f
  | var, v, f => ∃ s, v = .string s ∧ .var s = f
  | unary apply, v, f => ∃ g, below v g ∧ apply g = f
  | binary apply, v, f =>
    ∃ v₁ v₂ f₁ f₂, v = .array [v₁, v₂] ∧ inArray v₁ f₁ ∧ inArray v₂ f₂ ∧ apply f₁ f₂ = f

/-- What a reader accepts that may be missing; where it is, nothing. -/
def AcceptsOption (read : Option FormulaReader) (form : Value → Formula String → Prop) : Prop :=
  match read with
  | none => ∀ v f, ¬form v f
  | some read => Accepts read form

theorem accepts_pair_option {read : Option FormulaReader} {form : Value → Formula String → Prop}
    (hread : AcceptsOption read form)
    (apply : Formula String → Formula String → Formula String) :
    Accepts (pair read apply) fun v f ↦
      ∃ v₁ v₂ f₁ f₂, v = .array [v₁, v₂] ∧ form v₁ f₁ ∧ form v₂ f₂ ∧ apply f₁ f₂ = f := by
  cases read with
  | some read => exact accepts_pair hread apply
  | none =>
    intro v rest f rest'
    have hform : ∀ v f, ¬form v f := hread
    simp only [hform, false_and, and_false, exists_const]
    unfold pair
    split <;> simp

theorem accepts_operands {below : FormulaReader} {inArray : Option FormulaReader}
    {formBelow formInArray : Value → Formula String → Prop} (hb : Accepts below formBelow)
    (ha : AcceptsOption inArray formInArray) (op : Operator) :
    Accepts (operands below inArray op) (op.Takes formBelow formInArray) := by
  cases op with
  | const => exact accepts_bool.map Formula.const
  | var => exact accepts_string.map Formula.var
  | unary apply => exact hb.map apply
  | binary apply => exact accepts_pair_option ha apply

theorem expect_endObject_fieldTokens {fields : List (String × Value)} {rest us : List Token} :
    expect .endObject (Value.fieldTokens fields ++ .endObject :: rest) = .ok us ↔
      fields = [] ∧ rest = us := by
  cases fields <;> simp [Value.fieldTokens, expect]

theorem operator_eq_ok_iff {name : String} {ts ts' : List Token} {op : Operator} :
    operator (.string name :: ts) = .ok (op, ts') ↔ Operator.ofName? name = some op ∧ ts = ts' := by
  simp only [operator, key, bind_eq_ok_iff, Except.ok.injEq, exists_eq_left']
  cases Operator.ofName? name <;> simp

/-- A formula is read from an object with one field: its key is the operator. -/
theorem accepts_formulaBy {below : FormulaReader} {inArray : Option FormulaReader}
    {formBelow formInArray : Value → Formula String → Prop} (hb : Accepts below formBelow)
    (ha : AcceptsOption inArray formInArray) :
    Accepts (formulaBy (some (application below inArray))) fun v f ↦
      ∃ name op w, v = .object [(name, w)] ∧ Operator.ofName? name = some op ∧
        op.Takes formBelow formInArray w f := by
  intro v rest f rest'
  constructor
  · intro h
    cases v with
    | object fields =>
      cases fields with
      | nil => simp [Value.tokens, formulaBy, application, operator, key, bind_eq_ok_iff] at h
      | cons field fields =>
        obtain ⟨name, w⟩ := field
        simp only [Value.tokens, List.cons_append, List.append_assoc, List.nil_append, formulaBy]
          at h
        obtain ⟨⟨op, ts₁⟩, h₁, h⟩ := ok_of_bind h
        obtain ⟨ts₂, h₂, h⟩ := ok_of_bind h
        obtain ⟨⟨g, ts₃⟩, h₃, h⟩ := ok_of_bind h
        obtain ⟨ts₄, h₄, h⟩ := ok_of_bind h
        obtain ⟨hop, rfl⟩ := operator_eq_ok_iff.1 h₁
        obtain rfl : _ = ts₂ := by simpa [expect] using h₂
        obtain ⟨hg, rfl⟩ := (accepts_operands hb ha op ..).1 h₃
        obtain ⟨rfl, rfl⟩ := expect_endObject_fieldTokens.1 h₄
        simp only [Except.ok.injEq, Prod.mk.injEq] at h
        exact ⟨⟨name, op, w, rfl, hop, h.1 ▸ hg⟩, h.2.symm⟩
    | array vs => cases vs <;> simp [Value.tokens, formulaBy] at h
    | _ => simp [Value.tokens, formulaBy] at h
  · rintro ⟨⟨name, op, w, rfl, hop, hf⟩, rfl⟩
    simp only [Value.tokens, List.cons_append, List.append_assoc, List.nil_append, formulaBy,
      application, bind_eq_ok_iff]
    exact ⟨_, operator_eq_ok_iff.2 ⟨hop, rfl⟩, _, by simp [expect],
      _, (accepts_operands hb ha op ..).2 ⟨hf, rfl⟩, _, expect_endObject_fieldTokens.2 ⟨rfl, rfl⟩,
      rfl⟩

/-- The formulas of an operator are written with its name as the key. -/
def Operator.IsWritten (name : String) : Operator → Prop
  | const => ∀ b, (Formula.const b).toJson = .object [(name, .bool b)]
  | var => ∀ s, (Formula.var s).toJson = .object [(name, .string s)]
  | unary apply => ∀ f, (apply f).toJson = .object [(name, f.toJson)]
  | binary apply => ∀ f g, (apply f g).toJson = .object [(name, .array [f.toJson, g.toJson])]

theorem Operator.isWritten_of_ofName? {name : String} {op : Operator}
    (h : ofName? name = some op) : op.IsWritten name := by
  unfold ofName? at h
  split at h <;> cases h <;> simp [IsWritten, Formula.toJson]

end Json

namespace Formula

open Json

/-- A value is the form of a formula, and nests no deeper than given. -/
def HasForm (depth : Nat) (v : Value) (f : Formula String) : Prop :=
  v = f.toJson ∧ v.nesting ≤ depth

theorem hasForm_of_takes {depth : Nat} {name : String} {op : Operator} {w : Value}
    {f : Formula String} (hop : op.IsWritten name)
    (hf : op.Takes (HasForm depth) (fun w g ↦ w = g.toJson ∧ w.nesting < depth) w f) :
    HasForm (depth + 1) (.object [(name, w)]) f := by
  simp only [HasForm, Value.nesting, Value.nestingOfFields, Nat.add_le_add_iff_right, Nat.max_le,
    Nat.zero_le, and_true]
  cases op with
  | const =>
    obtain ⟨b, rfl, rfl⟩ := hf
    exact ⟨(hop b).symm, by simp [Value.nesting]⟩
  | var =>
    obtain ⟨s, rfl, rfl⟩ := hf
    exact ⟨(hop s).symm, by simp [Value.nesting]⟩
  | unary apply =>
    obtain ⟨g, ⟨rfl, hg⟩, rfl⟩ := hf
    exact ⟨(hop g).symm, hg⟩
  | binary apply =>
    obtain ⟨_, _, g₁, g₂, rfl, ⟨rfl, h₁⟩, ⟨rfl, h₂⟩, rfl⟩ := hf
    refine ⟨(hop g₁ g₂).symm, ?_⟩
    simp only [Value.nesting, Value.nestingOfElements]
    omega

theorem exists_takes_of_hasForm {depth : Nat} {f : Formula String}
    (hdepth : f.toJson.nesting ≤ depth + 1) :
    ∃ name op w, f.toJson = .object [(name, w)] ∧ Operator.ofName? name = some op ∧
      op.Takes (HasForm depth) (fun w g ↦ w = g.toJson ∧ w.nesting < depth) w f := by
  cases f with
  | const b => exact ⟨_, _, _, rfl, rfl, b, rfl, rfl⟩
  | var s => exact ⟨_, _, _, rfl, rfl, s, rfl, rfl⟩
  | neg f | next f | eventually f | always f =>
    simp only [toJson, Value.nesting, Value.nestingOfFields] at hdepth
    exact ⟨_, _, _, rfl, rfl, f, ⟨rfl, by omega⟩, rfl⟩
  | conj f g | disj f g | strongUntil f g =>
    simp only [toJson, Value.nesting, Value.nestingOfFields, Value.nestingOfElements] at hdepth
    exact ⟨_, _, _, rfl, rfl, _, _, f, g, rfl, ⟨rfl, by omega⟩, ⟨rfl, by omega⟩, rfl⟩

/-- The operators and what stands under them make up the forms of formulas. -/
theorem exists_takes_iff_hasForm (depth : Nat) (v : Value) (f : Formula String) :
    (∃ name op w, v = .object [(name, w)] ∧ Operator.ofName? name = some op ∧
      op.Takes (HasForm depth) (fun w g ↦ w = g.toJson ∧ w.nesting < depth) w f) ↔
    HasForm (depth + 1) v f := by
  constructor
  · rintro ⟨name, op, w, rfl, hop, hf⟩
    exact hasForm_of_takes (Operator.isWritten_of_ofName? hop) hf
  · rintro ⟨rfl, hdepth⟩
    exact exists_takes_of_hasForm hdepth

theorem not_hasForm_zero (v : Value) (f : Formula String) : ¬HasForm 0 v f := by
  rintro ⟨rfl, h⟩
  cases f <;> simp [toJson, Value.nesting] at h

end Formula

namespace Json

open Formula (HasForm)

/-- Reading accepts the forms of formulas and nothing else. -/
theorem accepts_formula (depth : Nat) : Accepts (formula depth) (HasForm depth) := by
  fun_induction formula depth with
  | case1 =>
    intro v rest f rest'
    simp only [Formula.not_hasForm_zero, false_and, iff_false]
    unfold formulaBy
    split <;> simp
  | case2 ih =>
    refine (accepts_formulaBy ih ?_).congr (Formula.exists_takes_iff_hasForm 0)
    exact fun w g h ↦ absurd h.2 (Nat.not_lt_zero _)
  | case3 depth ih₁ ih₂ =>
    refine (accepts_formulaBy ih₁ ?_).congr (Formula.exists_takes_iff_hasForm (depth + 1))
    exact ih₂.congr fun w g ↦ and_congr_right' Nat.lt_succ_iff.symm

end Json

namespace Json

open Formula (HasForm)

/-! ### Files of assumptions -/

section Fields

variable {σ : Type} {field : String → σ → Except Fault (Reader σ)} {first : Bool} {draft : σ}

theorem fields_endObject {rest : List Token} :
    fields field first draft (.endObject :: rest) = .ok (draft, rest) := by
  have hnext : nextKey first (.endObject :: rest) = .ok none := by simp [nextKey]
  rw [fields]
  split <;> simp_all

theorem fields_eq_ok_iff {r : Reader σ} {name : String} {result : σ} {ts us rest : List Token}
    (hnext : nextKey first ts = .ok (some (name, .colon :: us)))
    (hfield : field name draft = .ok r) :
    fields field first draft ts = .ok (result, rest) ↔
      ∃ draft' us', r.read us = .ok (draft', us') ∧
        fields field false draft' us' = .ok (result, rest) := by
  rw [fields]
  split
  case h_3 name' us' hnext' =>
    obtain ⟨rfl, rfl⟩ : name' = name ∧ us' = .colon :: us := by simpa [hnext] using hnext'.symm
    have hcolon : expect .colon (.colon :: us) = .ok us := rfl
    rw [hfield]
    dsimp only
    split
    case h_1 => simp_all
    case h_2 vs hvs =>
      obtain rfl : us = vs := by simpa [hcolon] using hvs
      split <;> simp_all
  all_goals simp_all

end Fields

/-- An object that holds nothing but assumptions is read formula by formula; two levels are taken by
the object and the list. -/
theorem record_assumes {depth : Nat} {w : Value} {p : Properties} {rest : List Token} :
    record (depth + 2) propertiesObject propertiesArray (Value.object [("assumes", w)]).tokens =
        .ok (p, rest) ↔
      (∃ vs fs, w = .array vs ∧ List.Forall₂ (HasForm depth) vs fs ∧ ⟨fs, []⟩ = p) ∧
        rest = [] := by
  have hlist : Accepts (formulaList (depth + 1)).read _ := accepts_array (accepts_formula depth)
  have hdraft := hlist.map fun fs ↦ { ({} : PropertiesDraft) with assumes? := some fs }
  have hfield : PropertiesDraft.field (depth + 1) "assumes" {} =
      .ok ((formulaList (depth + 1)).map fun fs ↦ { assumes? := some fs }) := rfl
  have hkey : nextKey true (.string "assumes" :: .colon :: (w.tokens ++ [.endObject])) =
      .ok (some ("assumes", .colon :: (w.tokens ++ [.endObject]))) := rfl
  simp only [Value.tokens, Value.fieldTokens, List.append_nil, record, propertiesObject,
    bind_eq_ok_iff, Prod.exists, fields_eq_ok_iff hkey hfield]
  constructor
  · rintro ⟨draft, ts, ⟨draft', ts', hread, hend⟩, h⟩
    obtain ⟨⟨fs, ⟨vs, rfl, hvs⟩, rfl⟩, rfl⟩ := (hdraft ..).1 hread
    simp only [fields_endObject, Except.ok.injEq, Prod.mk.injEq] at hend h
    obtain ⟨⟨rfl, rfl⟩, rfl, rfl⟩ := And.intro hend h
    exact ⟨⟨vs, fs, rfl, hvs, rfl⟩, rfl⟩
  · rintro ⟨⟨vs, fs, rfl, hvs, rfl⟩, rfl⟩
    exact ⟨_, _, ⟨_, _, (hdraft ..).2 ⟨⟨fs, ⟨vs, rfl, hvs⟩, rfl⟩, rfl⟩, fields_endObject⟩, rfl⟩

theorem properties_assumes {w : Value} {p : Properties} {rest : List Token} :
    properties (Value.object [("assumes", w)]).tokens = .ok (p, rest) ↔
      (∃ vs fs, w = .array vs ∧ List.Forall₂ (HasForm (maxDepth - 2)) vs fs ∧ ⟨fs, []⟩ = p) ∧
        rest = [] := by
  have hdepth : maxDepth = maxDepth - 2 + 2 := rfl
  rw [properties, hdepth, record_assumes, ← hdepth]

end Json

theorem Properties.ofJson?_eq_ok_iff {text : String} {p : Properties} :
    ofJson? text = .ok p ↔ Json.properties (Json.tokens text.toList) = .ok (p, []) := by
  unfold ofJson?
  split <;> simp_all

namespace Formula

open Json

/-- Reading gives back what was written, so no two formulas have the same form. -/
theorem toJson_injective : Function.Injective toJson := by
  intro f g h
  have read_form (f : Formula String) :
      Json.formula f.toJson.nesting (f.toJson.tokens ++ []) = .ok (f, []) :=
    (accepts_formula _ ..).2 ⟨⟨rfl, Nat.le_refl _⟩, rfl⟩
  have hf := read_form f
  rw [h, read_form g] at hf
  simpa using hf.symm

theorem numberFree_toJson (f : Formula String) : f.toJson.NumberFree := by
  induction f <;>
    simp_all [toJson, Value.NumberFree, Value.FieldsNumberFree, Value.ElementsNumberFree]

/-- **The JSON form of formulas is exact.** Wherever a value stands and whatever follows it, a
formula is read from it if and only if the value is the form of the formula and nests no deeper than
is left; any other value is at fault. So a formula has one form. The same holds of texts, however
blanks and escapes are placed in them, and of the assumptions in a file; the form of a formula, as
it is written, is read as this formula. -/
theorem reads_exactly_toJson :
    (∀ depth v rest f rest', Json.formula depth (v.tokens ++ rest) = .ok (f, rest') ↔
      (v = f.toJson ∧ v.nesting ≤ depth) ∧ rest' = rest) ∧
    (∀ depth v rest, (∀ f : Formula String, v ≠ f.toJson) →
      ∃ e, Json.formula depth (v.tokens ++ rest) = .error e) ∧
    toJson.Injective ∧
    (∀ v text, v.IsWrittenAs text → ∀ f rest,
      Json.formula maxDepth (Json.tokens text.toList) = .ok (f, rest) ↔
        (v = f.toJson ∧ v.nesting ≤ maxDepth) ∧ rest = []) ∧
    (∀ v : Value, v.NumberFree → v.IsWrittenAs v.render) ∧
    (∀ f : Formula String, f.toJson.nesting ≤ maxDepth →
      Json.formula maxDepth (Json.tokens f.toJson.render.toList) = .ok (f, [])) ∧
    (∀ vs text, (Value.object [("assumes", .array vs)]).IsWrittenAs text → ∀ p,
      Properties.ofJson? text = .ok p ↔
        ∃ fs, List.Forall₂ (HasForm (maxDepth - 2)) vs fs ∧ p = ⟨fs, []⟩) := by
  have reads_text {v : Value} {text : String} (h : v.IsWrittenAs text) (f : Formula String)
      (rest : List Token) : Json.formula maxDepth (Json.tokens text.toList) = .ok (f, rest) ↔
        (v = f.toJson ∧ v.nesting ≤ maxDepth) ∧ rest = [] := by
    rw [h, ← List.append_nil v.tokens]
    exact accepts_formula maxDepth v [] f rest
  refine ⟨accepts_formula, ?_, toJson_injective, fun v text ↦ reads_text, fun v ↦
    Value.isWrittenAs_render, ?_, ?_⟩
  · intro depth v rest hv
    exact (accepts_formula depth).error_of_forall_not (fun f hf ↦ hv f hf.1) rest
  · intro f hdepth
    exact (reads_text (Value.isWrittenAs_render f.numberFree_toJson) f []).2 ⟨⟨rfl, hdepth⟩, rfl⟩
  · intro vs text htext p
    rw [Properties.ofJson?_eq_ok_iff, htext, properties_assumes]
    simp [eq_comm]

/-- An operator with two operands in the place of a formula, and the same with one operand. -/
theorem reads_exactly_toJson_until :
    Json.formula maxDepth (Json.tokens ("\x7b\"until\": [\x7b\"var\": \"\\u0070\"\x7d," ++
        "\x7b\"not\":\x7b\"const\":true\x7d\x7d]\x7d").toList) =
      .ok (.strongUntil (.var "p") (.neg (.const true)), []) ∧
    ∃ e, Json.formula maxDepth
      ((Value.object [("until", .array [(var "p").toJson])]).tokens ++ []) = .error e := by
  obtain ⟨-, hreject, -, htext, -⟩ := reads_exactly_toJson
  constructor
  · refine (htext (toJson (.strongUntil (.var "p") (.neg (.const true)))) _ ?_ _ _).2
      ⟨⟨rfl, by decide⟩, rfl⟩
    show Json.tokens _ = _
    decide +kernel
  · refine hreject maxDepth _ [] fun f ↦ ?_
    cases f <;> simp [toJson]

end Formula

end TemporalMonitor
