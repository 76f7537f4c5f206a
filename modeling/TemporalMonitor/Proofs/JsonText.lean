import TemporalMonitor.Json.Value
import TemporalMonitor.Json.Token

/-!
# The tokens of JSON values

The tokens of a value (`Value.tokens`), and that a written value has them (`lexes_pretty`): line
breaks and blanks between tokens leave nothing, and a quoted string gives back its characters,
however they were escaped. Numbers are written by a text of their own, so this is about values
without them.

A piece of text is described by the tokens that it has whatever follows it (`Lexes`), and pieces can
be joined.
-/

namespace TemporalMonitor.Json

namespace Value

mutual

/-- The tokens of a value. -/
def tokens : Value → List Token
  | null => [.null]
  | bool b => [.bool b]
  | number _ => [.number]
  | string s => [.string s]
  | array [] => [.beginArray, .endArray]
  | array (v :: vs) => .beginArray :: (v.tokens ++ elementTokens vs ++ [.endArray])
  | object [] => [.beginObject, .endObject]
  | object ((k, v) :: fields) =>
    .beginObject :: .string k :: .colon :: (v.tokens ++ fieldTokens fields ++ [.endObject])

/-- The tokens of the elements behind the first one. -/
def elementTokens : List Value → List Token
  | [] => []
  | v :: vs => .comma :: (v.tokens ++ elementTokens vs)

/-- The tokens of the fields behind the first one. -/
def fieldTokens : List (String × Value) → List Token
  | [] => []
  | (k, v) :: fields => .comma :: .string k :: .colon :: (v.tokens ++ fieldTokens fields)

end

mutual

/-- A value in which no number occurs. -/
def NumberFree : Value → Prop
  | null | bool _ | string _ => True
  | number _ => False
  | array vs => ElementsNumberFree vs
  | object fields => FieldsNumberFree fields

/-- No number occurs in the elements of an array. -/
def ElementsNumberFree : List Value → Prop
  | [] => True
  | v :: vs => v.NumberFree ∧ ElementsNumberFree vs

/-- No number occurs in the fields of an object. -/
def FieldsNumberFree : List (String × Value) → Prop
  | [] => True
  | (_, v) :: fields => v.NumberFree ∧ FieldsNumberFree fields

end

end Value

/-! ### Strings -/

theorem hexDigit?_digitChar {n : Nat} (h : n < 16) : hexDigit? (Nat.digitChar n) = some n := by
  revert n
  decide

theorem hexEscape_twoHexDigits {n : Nat} (h : n < 256) (rest : List Char) :
    hexEscape ('0' :: '0' :: (twoHexDigits n ++ rest)) = .ok (n, rest) := by
  have hzero : hexDigit? '0' = some 0 := by decide
  have hhigh : hexDigit? (Nat.digitChar (n / 16)) = some (n / 16) := hexDigit?_digitChar (by omega)
  have hlow : hexDigit? (Nat.digitChar (n % 16)) = some (n % 16) := hexDigit?_digitChar (by omega)
  simp only [twoHexDigits, List.cons_append, List.nil_append, hexEscape, hzero, hhigh, hlow,
    Except.ok.injEq, Prod.mk.injEq, and_true]
  omega

theorem stringBody_backslash {c : Char} {cs rest : List Char} (h : escape cs = .ok (c, rest)) :
    stringBody ('\\' :: cs) = (stringBody rest).map fun (s, r) ↦ (c :: s, r) := by
  rw [stringBody, if_neg (by decide), if_pos rfl]
  split
  · simp_all
  · simp_all

/-- A control character is written by its number, which is none of a surrogate. -/
theorem escape_control {c : Char} (h : c.toNat < 0x20) (rest : List Char) :
    escape ('u' :: '0' :: '0' :: (twoHexDigits c.toNat ++ rest)) = .ok (c, rest) := by
  have htrailing : isTrailing c.toNat = false := by
    simp only [isTrailing, Bool.and_eq_false_iff, decide_eq_false_iff_not]
    omega
  have hleading : isLeading c.toNat = false := by
    simp only [isLeading, Bool.and_eq_false_iff, decide_eq_false_iff_not]
    omega
  simp [escape, unicodeEscape, hexEscape_twoHexDigits (show c.toNat < 256 by omega), htrailing,
    hleading]

theorem stringBody_escapeChar (c : Char) (rest : List Char) :
    stringBody (escapeChar c ++ rest) = (stringBody rest).map fun (s, r) ↦ (c :: s, r) := by
  unfold escapeChar
  split
  case h_8 hquote hbackslash _ _ _ _ _ =>
    split
    case isTrue hcontrol => exact stringBody_backslash (escape_control hcontrol rest)
    case isFalse hcontrol =>
      rw [List.cons_append, List.nil_append, stringBody, if_neg hquote, if_neg hbackslash,
        if_neg hcontrol]
  all_goals exact stringBody_backslash rfl

theorem stringBody_flatMap_escapeChar (s rest : List Char) :
    stringBody (s.flatMap escapeChar ++ '"' :: rest) = .ok (s, rest) := by
  induction s with
  | nil => simp [stringBody]
  | cons c s ih =>
    rw [List.flatMap_cons, List.append_assoc, stringBody_escapeChar, ih]
    rfl

/-! ### Pieces of text -/

/-- A piece of text has these tokens, whatever follows it. -/
def Lexes (text : String) (ts : List Token) : Prop :=
  ∀ rest, tokens (text.toList ++ rest) = ts ++ tokens rest

theorem Lexes.append {text text' : String} {ts ts' : List Token} (h : Lexes text ts)
    (h' : Lexes text' ts') : Lexes (text ++ text') (ts ++ ts') := by
  intro rest
  rw [String.toList_append, List.append_assoc, h, h', List.append_assoc]

theorem tokens_of_lexes {text : String} {ts : List Token} (h : Lexes text ts) :
    tokens text.toList = ts := by
  simpa [tokens] using h []

theorem lexes_blanks (n : Nat) : Lexes ("".pushn ' ' n) [] := by
  induction n with
  | zero => exact fun rest ↦ rfl
  | succ n ih =>
    intro rest
    have hpush : "".pushn ' ' (n + 1) = ("".pushn ' ' n).push ' ' := rfl
    rw [hpush, String.toList_push, List.append_assoc, ih]
    simp [tokens, isBlank]

theorem lexes_newline (indent : Nat) : Lexes (newline indent) [] := by
  have hbreak : Lexes "\n" [] := fun rest ↦ by simp [tokens, isBlank]
  exact hbreak.append (lexes_blanks _)

theorem lexes_quoted (s : String) : Lexes (quoted s) [.string s] := by
  intro rest
  have hbody := stringBody_flatMap_escapeChar s.toList rest
  simp only [quoted, String.toList_ofList, List.cons_append, List.append_assoc, List.nil_append]
  rw [tokens, if_neg (by decide)]
  split
  · simp_all
  · simp_all

theorem lexes_brackets : Lexes "[" [.beginArray] ∧ Lexes "]" [.endArray] := by
  constructor <;> intro rest <;> simp [tokens, isBlank]

theorem lexes_braces : Lexes "\x7b" [.beginObject] ∧ Lexes "\x7d" [.endObject] := by
  constructor <;> intro rest <;> simp [tokens, isBlank]

theorem lexes_comma : Lexes "," [.comma] := by
  intro rest
  simp [tokens, isBlank]

theorem lexes_colon : Lexes ": " [.colon] := by
  intro rest
  simp [tokens, isBlank]

theorem lexes_word :
    Lexes "null" [.null] ∧ Lexes "true" [.bool true] ∧ Lexes "false" [.bool false] := by
  refine ⟨?_, ?_, ?_⟩
  all_goals
    intro rest
    simp [tokens, isBlank, dropWord]

namespace Value

mutual

/-- A written value has the tokens of the value, however far it is indented. -/
theorem lexes_pretty (indent : Nat) (v : Value) (h : v.NumberFree) :
    Lexes (v.pretty indent) v.tokens := by
  match v with
  | null => exact lexes_word.1
  | bool true => exact lexes_word.2.1
  | bool false => exact lexes_word.2.2
  | number _ => exact h.elim
  | string s => exact lexes_quoted s
  | array [] =>
    intro rest
    simp [pretty, tokens, Json.tokens, isBlank]
  | array (v :: vs) =>
    obtain ⟨hv, hvs⟩ := h
    have hlexes := lexes_brackets.1.append (lexes_newline (indent + 1))
      |>.append (lexes_pretty (indent + 1) v hv)
      |>.append (lexes_prettyElements (indent + 1) vs hvs)
      |>.append (lexes_newline indent)
      |>.append lexes_brackets.2
    simpa only [pretty, tokens, List.append_nil, List.nil_append, List.cons_append] using hlexes
  | object [] =>
    intro rest
    simp [pretty, tokens, Json.tokens, isBlank]
  | object ((k, v) :: fields) =>
    obtain ⟨hv, hfields⟩ := h
    have hlexes := lexes_braces.1.append (lexes_newline (indent + 1))
      |>.append (lexes_quoted k)
      |>.append lexes_colon
      |>.append (lexes_pretty (indent + 1) v hv)
      |>.append (lexes_prettyFields (indent + 1) fields hfields)
      |>.append (lexes_newline indent)
      |>.append lexes_braces.2
    simpa only [pretty, tokens, List.append_nil, List.nil_append, List.cons_append] using hlexes

theorem lexes_prettyElements (indent : Nat) (vs : List Value) (h : ElementsNumberFree vs) :
    Lexes (prettyElements indent vs) (elementTokens vs) := by
  match vs with
  | [] => exact fun rest ↦ rfl
  | v :: vs =>
    obtain ⟨hv, hvs⟩ := h
    have hlexes := lexes_comma.append (lexes_newline indent)
      |>.append (lexes_pretty indent v hv)
      |>.append (lexes_prettyElements indent vs hvs)
    simpa only [prettyElements, elementTokens, List.append_nil, List.nil_append,
      List.cons_append] using hlexes

theorem lexes_prettyFields (indent : Nat) (fields : List (String × Value))
    (h : FieldsNumberFree fields) : Lexes (prettyFields indent fields) (fieldTokens fields) := by
  match fields with
  | [] => exact fun rest ↦ rfl
  | (k, v) :: fields =>
    obtain ⟨hv, hfields⟩ := h
    have hlexes := lexes_comma.append (lexes_newline indent)
      |>.append (lexes_quoted k)
      |>.append lexes_colon
      |>.append (lexes_pretty indent v hv)
      |>.append (lexes_prettyFields indent fields hfields)
    simpa only [prettyFields, fieldTokens, List.append_nil, List.nil_append,
      List.cons_append] using hlexes

end

/-- A text has the tokens of the value. -/
def IsWrittenAs (v : Value) (text : String) : Prop := Json.tokens text.toList = v.tokens

theorem isWrittenAs_render {v : Value} (h : v.NumberFree) : v.IsWrittenAs v.render :=
  tokens_of_lexes (v.lexes_pretty 0 h)

end Value

end TemporalMonitor.Json
