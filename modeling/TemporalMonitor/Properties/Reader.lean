import TemporalMonitor.Json.Token
import TemporalMonitor.Properties

/-!
# Reading properties from JSON

A formula is an object with one key, the operator, and its operands as the value: a truth value
under `const`, a string under `var`, a formula under a unary operator, an array of two formulas
under a binary one. A property is an object with the keys `name` and `formula`, or an array of the
two in this order. The properties are an object with the keys `assumes` and `guarantees`, or an
array of the two; either may be left out, and in the array only from the end.

Tokens are read once, from left to right, and the first one that does not fit decides the fault.
Reading keeps count of the objects and arrays that it is inside of, since a text may nest only
`maxDepth` of them; that count bounds the recursion.
-/

namespace TemporalMonitor

namespace Json

/-- How many objects and arrays may be open at a time. -/
def maxDepth : Nat := 127

/-- The fault of finding these tokens where a value of a certain type is asked for. -/
def wrongType : List Token → Fault
  | [] => .truncated
  | .beginObject :: _ | .beginArray :: _ | .null :: _ | .bool _ :: _ | .number :: _
  | .string _ :: _ => .mismatch
  | .badString e :: _ | .badWord e :: _ => e
  | _ => .malformed

/-- Reads one punctuation token. -/
def expect (t : Token) : List Token → Except Fault (List Token)
  | [] => .error .truncated
  | u :: rest => if u = t then .ok rest else .error .malformed

/-- Reads a truth value. -/
def bool : List Token → Except Fault (Bool × List Token)
  | .bool b :: rest => .ok (b, rest)
  | ts => .error (wrongType ts)

/-- Reads a string. -/
def string : List Token → Except Fault (String × List Token)
  | .string s :: rest => .ok (s, rest)
  | ts => .error (wrongType ts)

/-- Reads a string that stands where only a key can stand. -/
def key : List Token → Except Fault (String × List Token)
  | [] => .error .truncated
  | .string s :: rest => .ok (s, rest)
  | .badString e :: _ => .error e
  | _ => .error .malformed

/-- Goes on to the next element of an array: the tokens it starts with, or `none` in front of the
end of the array. -/
def nextElement (first : Bool) : List Token → Except Fault (Option (List Token))
  | [] => .error .truncated
  | .endArray :: _ => .ok none
  | t :: rest =>
    if first then .ok (some (t :: rest))
    else if t = .comma then
      match rest with
      | [] => .error .truncated
      | .endArray :: _ => .error .malformed
      | _ => .ok (some rest)
    else .error .malformed

/-- Goes on to the next key of an object: the key and the tokens behind it, or `none` in front of
the end of the object. -/
def nextKey (first : Bool) : List Token → Except Fault (Option (String × List Token))
  | [] => .error .truncated
  | .endObject :: _ => .ok none
  | t :: rest =>
    if first then (key (t :: rest)).map some
    else if t = .comma then (key rest).map some
    else .error .malformed

/-- Goes on to the next element of an array that has to have one. -/
def needElement (first : Bool) (ts : List Token) : Except Fault (List Token) :=
  match nextElement first ts with
  | .ok (some ts) => .ok ts
  | .ok none => .error .mismatch
  | .error e => .error e

/-- The operators of a formula by the type of what stands under them. -/
inductive Operator where
  | const
  | var
  | unary (apply : Formula String → Formula String)
  | binary (apply : Formula String → Formula String → Formula String)

/-- The operator of a name. -/
def Operator.ofName? : String → Option Operator
  | "const" => some .const
  | "var" => some .var
  | "not" => some (.unary .neg)
  | "and" => some (.binary .conj)
  | "or" => some (.binary .disj)
  | "next" => some (.unary .next)
  | "eventually" => some (.unary .eventually)
  | "always" => some (.unary .always)
  | "until" => some (.binary .strongUntil)
  | _ => none

/-- Reads the name of an operator. It is a key: what is not a string cannot stand there, so it is
malformed like any other such key, while a string that names no operator is a mismatch. -/
def operator (ts : List Token) : Except Fault (Operator × List Token) := do
  let (name, ts) ← key ts
  match Operator.ofName? name with
  | some op => .ok (op, ts)
  | none => .error .mismatch

/-- How a formula is read. -/
abbrev FormulaReader := List Token → Except Fault (Formula String × List Token)

/-- Reads an array of two formulas, each by `read`; without `read` the array lies too deep. -/
def pair (read : Option FormulaReader) (apply : Formula String → Formula String → Formula String) :
    FormulaReader
  | .beginArray :: ts =>
    match read with
    | none => .error .malformed
    | some read => do
      let ts ← needElement true ts
      let (f, ts) ← read ts
      let ts ← needElement false ts
      let (g, ts) ← read ts
      let ts ← expect .endArray ts
      .ok (apply f g, ts)
  | ts => .error (wrongType ts)

/-- Reads what stands under an operator: `below` reads a formula one level further in, `inArray` two
levels, if the nesting allows it. -/
def operands (below : FormulaReader) (inArray : Option FormulaReader) : Operator → FormulaReader
  | .const, ts => (bool ts).map fun (b, ts) ↦ (.const b, ts)
  | .var, ts => (string ts).map fun (s, ts) ↦ (.var s, ts)
  | .unary apply, ts => (below ts).map fun (f, ts) ↦ (apply f, ts)
  | .binary apply, ts => pair inArray apply ts

/-- Reads the rest of an object that describes a formula. -/
def application (below : FormulaReader) (inArray : Option FormulaReader) : FormulaReader :=
  fun ts ↦ do
    let (op, ts) ← operator ts
    let ts ← expect .colon ts
    let (f, ts) ← operands below inArray op ts
    let ts ← expect .endObject ts
    .ok (f, ts)

/-- Reads a formula, where `body` reads the rest of an object; without `body` the object lies too
deep. -/
def formulaBy (body : Option FormulaReader) : FormulaReader
  | [] => .error .truncated
  | .beginObject :: ts =>
    match body with
    | none => .error .malformed
    | some body => body ts
  | .string _ :: _ => .error .mismatch
  | .badString e :: _ => .error e
  | _ => .error .malformed

/-- Reads a formula, where `depth` more objects and arrays may be opened. -/
def formula : (depth : Nat) → FormulaReader
  | 0 => formulaBy none
  | 1 => formulaBy (some (application (formula 0) none))
  | depth + 2 => formulaBy (some (application (formula (depth + 1)) (some (formula depth))))

/-! ### Reading gets on

Whatever is read leaves fewer tokens behind, so that lists can be read to their end. -/

theorem ok_of_bind {α β : Type} {x : Except Fault α} {k : α → Except Fault β} {b : β}
    (h : (x >>= k) = .ok b) : ∃ a, x = .ok a ∧ k a = .ok b := by
  cases x with
  | error e => simp [bind, Except.bind] at h
  | ok a => exact ⟨a, rfl, h⟩

theorem expect_length {t : Token} {ts rest : List Token} (h : expect t ts = .ok rest) :
    rest.length < ts.length := by
  unfold expect at h
  split at h
  · simp at h
  · split at h <;> simp_all

theorem bool_length {b : Bool} {ts rest : List Token} (h : bool ts = .ok (b, rest)) :
    rest.length < ts.length := by
  unfold bool at h
  split at h <;> simp_all

theorem string_length {s : String} {ts rest : List Token} (h : string ts = .ok (s, rest)) :
    rest.length < ts.length := by
  unfold string at h
  split at h <;> simp_all

theorem key_length {s : String} {ts rest : List Token} (h : key ts = .ok (s, rest)) :
    rest.length < ts.length := by
  unfold key at h
  split at h <;> simp_all

theorem nextElement_length {first : Bool} {ts rest : List Token}
    (h : nextElement first ts = .ok (some rest)) : rest.length ≤ ts.length := by
  unfold nextElement at h
  split at h
  · simp at h
  · simp at h
  · split at h
    · simp_all
    · split at h
      · split at h <;> simp_all
      · simp at h

theorem nextKey_length {first : Bool} {s : String} {ts rest : List Token}
    (h : nextKey first ts = .ok (some (s, rest))) : rest.length < ts.length := by
  have map_ok {us : List Token} (h : (key us).map some = .ok (some (s, rest))) :
      rest.length < us.length := by
    cases hk : key us with
    | error e => simp [hk, Except.map] at h
    | ok p =>
      simp only [hk, Except.map, Except.ok.injEq, Option.some.injEq] at h
      exact key_length (h ▸ hk)
  unfold nextKey at h
  split at h
  · simp at h
  · simp at h
  · split at h
    · exact map_ok h
    · split at h
      · have := map_ok h
        simp only [List.length_cons]
        omega
      · simp at h

theorem needElement_length {first : Bool} {ts rest : List Token}
    (h : needElement first ts = .ok rest) : rest.length ≤ ts.length := by
  unfold needElement at h
  split at h
  · rename_i heq
    exact nextElement_length ((Except.ok.inj h) ▸ heq)
  · simp at h
  · simp at h

theorem operator_length {op : Operator} {ts rest : List Token}
    (h : operator ts = .ok (op, rest)) : rest.length < ts.length := by
  obtain ⟨⟨name, ts'⟩, hk, h⟩ := ok_of_bind h
  have := key_length hk
  simp only at h
  split at h
  · simp only [Except.ok.injEq, Prod.mk.injEq] at h
    simpa [← h.2] using this
  · simp at h

/-- A reader leaves fewer tokens behind. -/
def Shortens {α : Type} (read : List Token → Except Fault (α × List Token)) : Prop :=
  ∀ ⦃ts rest : List Token⦄ ⦃a : α⦄, read ts = .ok (a, rest) → rest.length < ts.length

theorem Shortens.map {α β : Type} {read : List Token → Except Fault (α × List Token)}
    (hr : Shortens read) {g : α → β} :
    Shortens fun ts ↦ (read ts).map fun (a, ts) ↦ (g a, ts) := by
  intro ts rest b h
  cases hx : read ts with
  | error e => simp [hx, Except.map] at h
  | ok p =>
    have := hr hx
    simp only [hx, Except.map, Except.ok.injEq, Prod.mk.injEq] at h
    simpa [← h.2] using this

theorem pair_shortens {read : Option FormulaReader} (hr : ∀ r ∈ read, Shortens r)
    (apply : Formula String → Formula String → Formula String) :
    Shortens (pair read apply) := by
  intro ts rest f h
  unfold pair at h
  split at h
  · split at h
    · simp at h
    · rename_i r
      obtain ⟨ts₁, h₁, h⟩ := ok_of_bind h
      obtain ⟨⟨f₁, ts₂⟩, h₂, h⟩ := ok_of_bind h
      obtain ⟨ts₃, h₃, h⟩ := ok_of_bind h
      obtain ⟨⟨f₂, ts₄⟩, h₄, h⟩ := ok_of_bind h
      obtain ⟨ts₅, h₅, h⟩ := ok_of_bind h
      have l₁ := needElement_length h₁
      have l₂ := hr r rfl h₂
      have l₃ := needElement_length h₃
      have l₄ := hr r rfl h₄
      have l₅ := expect_length h₅
      simp only [Except.ok.injEq, Prod.mk.injEq] at h
      simp only [List.length_cons, ← h.2]
      omega
  · simp at h

theorem operands_shortens {below : FormulaReader} {inArray : Option FormulaReader}
    (hb : Shortens below) (ha : ∀ r ∈ inArray, Shortens r) (op : Operator) :
    Shortens (operands below inArray op) := by
  cases op with
  | const => exact Shortens.map fun _ _ _ ↦ bool_length
  | var => exact Shortens.map fun _ _ _ ↦ string_length
  | unary apply => exact Shortens.map hb
  | binary apply => exact pair_shortens ha apply

theorem application_shortens {below : FormulaReader} {inArray : Option FormulaReader}
    (hb : Shortens below) (ha : ∀ r ∈ inArray, Shortens r) :
    Shortens (application below inArray) := by
  intro ts rest f h
  obtain ⟨⟨op, ts₁⟩, h₁, h⟩ := ok_of_bind h
  obtain ⟨ts₂, h₂, h⟩ := ok_of_bind h
  obtain ⟨⟨g, ts₃⟩, h₃, h⟩ := ok_of_bind h
  obtain ⟨ts₄, h₄, h⟩ := ok_of_bind h
  have l₁ := operator_length h₁
  have l₂ := expect_length h₂
  have l₃ := operands_shortens hb ha op h₃
  have l₄ := expect_length h₄
  simp only [Except.ok.injEq, Prod.mk.injEq] at h
  simp only [← h.2]
  omega

theorem formulaBy_shortens {body : Option FormulaReader} (hb : ∀ r ∈ body, Shortens r) :
    Shortens (formulaBy body) := by
  intro ts rest f h
  unfold formulaBy at h
  split at h
  · simp at h
  · split at h
    · simp at h
    · rename_i r
      have := hb r rfl h
      simp only [List.length_cons]
      omega
  all_goals simp at h

theorem formula_shortens (depth : Nat) : Shortens (formula depth) := by
  fun_induction formula depth with
  | case1 => exact formulaBy_shortens (by simp)
  | case2 ih => exact formulaBy_shortens (by simpa using application_shortens ih (by simp))
  | case3 depth ih₁ ih₂ =>
    exact formulaBy_shortens (by simpa using application_shortens ih₁ (by simpa using ih₂))

/-! ### Lists and records -/

/-- A reader that leaves fewer tokens behind. -/
structure Reader (α : Type) where
  /-- Reads from the first token on. -/
  read : List Token → Except Fault (α × List Token)
  /-- Something is read. -/
  shortens : Shortens read

namespace Reader

variable {α β : Type}

/-- The reader of what `r` reads, changed by `g`. -/
def map (r : Reader α) (g : α → β) : Reader β where
  read ts := (r.read ts).map fun (a, ts) ↦ (g a, ts)
  shortens := r.shortens.map

/-- The reader of strings. -/
def string : Reader String := ⟨Json.string, fun _ _ _ ↦ string_length⟩

/-- The reader of formulas. -/
def formula (depth : Nat) : Reader (Formula String) := ⟨Json.formula depth, formula_shortens depth⟩

end Reader

/-- Reads the elements of an array to its end. -/
def elements {α : Type} (r : Reader α) (first : Bool) (ts : List Token) :
    Except Fault (List α × List Token) :=
  match h₁ : nextElement first ts with
  | .error e => .error e
  | .ok none => .ok ([], ts.drop 1)
  | .ok (some us) =>
    match h₂ : r.read us with
    | .error e => .error e
    | .ok (a, rest) =>
      have : rest.length < ts.length :=
        Nat.lt_of_lt_of_le (r.shortens h₂) (nextElement_length h₁)
      (elements r false rest).map fun (as, rest) ↦ (a :: as, rest)
termination_by ts.length

/-- Reads an array. -/
def array {α : Type} (depth : Nat) (r : Nat → Reader α) :
    List Token → Except Fault (List α × List Token)
  | .beginArray :: ts =>
    match depth with
    | 0 => .error .malformed
    | depth + 1 => elements (r depth) true ts
  | ts => .error (wrongType ts)

/-- Reads the fields of an object to its end. The fields read so far are in `draft`; the key of the
next one decides how its value is added to them. -/
def fields {σ : Type} (field : String → σ → Except Fault (Reader σ)) (first : Bool) (draft : σ)
    (ts : List Token) : Except Fault (σ × List Token) :=
  match h₁ : nextKey first ts with
  | .error e => .error e
  | .ok none => .ok (draft, ts.drop 1)
  | .ok (some (name, us)) =>
    match field name draft with
    | .error e => .error e
    | .ok r =>
      match h₂ : expect .colon us with
      | .error e => .error e
      | .ok vs =>
        match h₃ : r.read vs with
        | .error e => .error e
        | .ok (draft, rest) =>
          have : rest.length < ts.length :=
            Nat.lt_trans (r.shortens h₃) (Nat.lt_trans (expect_length h₂) (nextKey_length h₁))
          fields field false draft rest
termination_by ts.length

theorem elements_length {α : Type} {r : Reader α} {first : Bool} {ts rest : List Token}
    {as : List α} (h : elements r first ts = .ok (as, rest)) : rest.length ≤ ts.length := by
  fun_induction elements r first ts generalizing as rest with
  | case1 => simp at h
  | case2 =>
    simp only [Except.ok.injEq, Prod.mk.injEq] at h
    simp [← h.2]
  | case3 => simp at h
  | case4 first ts us h₁ a vs h₂ hlt ih =>
    cases he : elements r false vs with
    | error e => simp [he, Except.map] at h
    | ok p =>
      have := ih he
      simp only [he, Except.map, Except.ok.injEq, Prod.mk.injEq] at h
      rw [← h.2]
      omega

theorem array_shortens {α : Type} (depth : Nat) (r : Nat → Reader α) :
    Shortens (array depth r) := by
  intro ts rest as h
  unfold array at h
  split at h
  · split at h
    · simp at h
    · have := elements_length h
      simp only [List.length_cons]
      omega
  · simp at h

theorem fields_length {σ : Type} {field : String → σ → Except Fault (Reader σ)} {first : Bool}
    {draft result : σ} {ts rest : List Token}
    (h : fields field first draft ts = .ok (result, rest)) : rest.length ≤ ts.length := by
  fun_induction fields field first draft ts with
  | case2 =>
    simp only [Except.ok.injEq, Prod.mk.injEq] at h
    simp [← h.2]
  | case6 =>
    rename_i hlt ih
    have := ih h
    omega
  | _ => simp at h

/-- The reader of arrays. -/
def Reader.array {α : Type} (depth : Nat) (r : Nat → Reader α) : Reader (List α) :=
  ⟨Json.array depth r, array_shortens depth r⟩

/-! ### Properties -/

/-- The reader of a field that has not been read before. -/
def onceOnly {α σ : Type} (seen : Option α) (r : Reader σ) : Except Fault (Reader σ) :=
  match seen with
  | some _ => .error .mismatch
  | none => .ok r

/-- The fields of a property read so far. -/
structure PropertyDraft where
  /-- The value of `name`. -/
  name? : Option String := none
  /-- The value of `formula`. -/
  formula? : Option (Formula String) := none

/-- How a field of a property is read. -/
def PropertyDraft.field (depth : Nat) (key : String) (d : PropertyDraft) :
    Except Fault (Reader PropertyDraft) :=
  match key with
  | "name" => onceOnly d.name? (Reader.string.map fun s ↦ { d with name? := some s })
  | "formula" =>
    onceOnly d.formula? ((Reader.formula depth).map fun f ↦ { d with formula? := some f })
  | _ => .error .mismatch

/-- The property, which has to have both fields. -/
def PropertyDraft.complete (d : PropertyDraft) : Except Fault Property :=
  match d.name?, d.formula? with
  | some name, some formula => .ok ⟨name, formula⟩
  | _, _ => .error .mismatch

/-- Reads the rest of an object that describes a property. -/
def propertyObject (depth : Nat) (ts : List Token) : Except Fault (Property × List Token) := do
  let (draft, ts) ← fields (PropertyDraft.field depth) true {} ts
  let p ← draft.complete
  .ok (p, ts)

/-- Reads the rest of an array that describes a property. -/
def propertyArray (depth : Nat) (ts : List Token) : Except Fault (Property × List Token) := do
  let ts ← needElement true ts
  let (name, ts) ← string ts
  let ts ← needElement false ts
  let (f, ts) ← formula depth ts
  let ts ← expect .endArray ts
  .ok (⟨name, f⟩, ts)

/-- Reads a record, which is written as an object or as an array. -/
def record {α : Type} (depth : Nat)
    (object array : (depth : Nat) → List Token → Except Fault (α × List Token)) :
    List Token → Except Fault (α × List Token)
  | .beginObject :: ts =>
    match depth with
    | 0 => .error .malformed
    | depth + 1 => object depth ts
  | .beginArray :: ts =>
    match depth with
    | 0 => .error .malformed
    | depth + 1 => array depth ts
  | ts => .error (wrongType ts)

/-- Reads a property. -/
def property (depth : Nat) : List Token → Except Fault (Property × List Token) :=
  record depth propertyObject propertyArray

theorem property_shortens (depth : Nat) : Shortens (property depth) := by
  intro ts rest p h
  unfold property record at h
  split at h
  · split at h
    · simp at h
    · obtain ⟨⟨draft, ts₁⟩, h₁, h⟩ := ok_of_bind h
      obtain ⟨p', _, h⟩ := ok_of_bind h
      have := fields_length h₁
      simp only [Except.ok.injEq, Prod.mk.injEq] at h
      simp only [List.length_cons, ← h.2]
      omega
  · split at h
    · simp at h
    · obtain ⟨ts₁, h₁, h⟩ := ok_of_bind h
      obtain ⟨⟨name, ts₂⟩, h₂, h⟩ := ok_of_bind h
      obtain ⟨ts₃, h₃, h⟩ := ok_of_bind h
      obtain ⟨⟨f, ts₄⟩, h₄, h⟩ := ok_of_bind h
      obtain ⟨ts₅, h₅, h⟩ := ok_of_bind h
      have l₁ := needElement_length h₁
      have l₂ := string_length h₂
      have l₃ := needElement_length h₃
      have l₄ := formula_shortens _ h₄
      have l₅ := expect_length h₅
      simp only [Except.ok.injEq, Prod.mk.injEq] at h
      simp only [List.length_cons, ← h.2]
      omega
  · simp at h

/-- The reader of lists of formulas. -/
def formulaList (depth : Nat) : Reader (List (Formula String)) := .array depth .formula

/-- The reader of lists of properties. -/
def propertyList (depth : Nat) : Reader (List Property) :=
  .array depth fun depth ↦ ⟨property depth, property_shortens depth⟩

/-- The sections of a properties file read so far. -/
structure PropertiesDraft where
  /-- The value of `assumes`. -/
  assumes? : Option (List (Formula String)) := none
  /-- The value of `guarantees`. -/
  guarantees? : Option (List Property) := none

/-- How a section of a properties file is read. -/
def PropertiesDraft.field (depth : Nat) (key : String) (d : PropertiesDraft) :
    Except Fault (Reader PropertiesDraft) :=
  match key with
  | "assumes" =>
    onceOnly d.assumes? ((formulaList depth).map fun fs ↦ { d with assumes? := some fs })
  | "guarantees" =>
    onceOnly d.guarantees? ((propertyList depth).map fun ps ↦ { d with guarantees? := some ps })
  | _ => .error .mismatch

/-- The properties; a section that is left out is empty. -/
def PropertiesDraft.complete (d : PropertiesDraft) : Properties :=
  ⟨d.assumes?.getD [], d.guarantees?.getD []⟩

/-- Reads the rest of an object that describes properties. -/
def propertiesObject (depth : Nat) (ts : List Token) : Except Fault (Properties × List Token) := do
  let (draft, ts) ← fields (PropertiesDraft.field depth) true {} ts
  .ok (draft.complete, ts)

/-- Reads the rest of an array that describes properties. -/
def propertiesArray (depth : Nat) (ts : List Token) : Except Fault (Properties × List Token) := do
  match ← nextElement true ts with
  | none => .ok ({}, ts.drop 1)
  | some ts =>
    let (assumes, ts) ← (formulaList depth).read ts
    match ← nextElement false ts with
    | none => .ok (⟨assumes, []⟩, ts.drop 1)
    | some ts =>
      let (guarantees, ts) ← (propertyList depth).read ts
      let ts ← expect .endArray ts
      .ok (⟨assumes, guarantees⟩, ts)

/-- Reads properties. -/
def properties : List Token → Except Fault (Properties × List Token) :=
  record maxDepth propertiesObject propertiesArray

end Json

/-- The properties that a text describes. Nothing may follow them. -/
def Properties.ofJson? (text : String) : Except Json.Fault Properties :=
  match Json.properties (Json.tokens text.toList) with
  | .error e => .error e
  | .ok (p, []) => .ok p
  | .ok (_, _ :: _) => .error .malformed

end TemporalMonitor
