import TemporalMonitor.Binary64

/-!
# Tokens of JSON texts

A JSON text as the list of its tokens. Reading a text goes from left to right and stops at the
first fault, so what stands behind a fault does not matter: a string, a number or a word that
cannot be read becomes a token that carries its fault, and is the last one of its text.

A text can be at fault in three ways: it is malformed, it ends too early, or it is well formed and
does not describe what is asked for. A number beyond the range of double precision and half a
surrogate pair are malformed.
-/

namespace TemporalMonitor.Json

/-- What is wrong with a text. -/
inductive Fault where
  /-- The text is not JSON. -/
  | malformed
  /-- The text is JSON of another shape than asked for. -/
  | mismatch
  /-- The text ends too early. -/
  | truncated
  deriving DecidableEq, Repr

/-- The text of a fault. -/
def Fault.message : Fault → String
  | malformed => "json syntax"
  | mismatch => "json data"
  | truncated => "json eof"

/-- A token of a JSON text. -/
inductive Token where
  | beginObject
  | endObject
  | beginArray
  | endArray
  | colon
  | comma
  | null
  | bool (b : Bool)
  | number
  | string (s : String)
  /-- A string that cannot be read. -/
  | badString (fault : Fault)
  /-- A number or a word that cannot be read. -/
  | badWord (fault : Fault)
  /-- A character that starts nothing. -/
  | stray
  deriving DecidableEq, Repr

/-! ### Strings -/

/-- The value of a hexadecimal digit. -/
def hexDigit? (c : Char) : Option Nat :=
  if c.isDigit then some (c.toNat - '0'.toNat)
  else if 'a' ≤ c && c ≤ 'f' then some (c.toNat - 'a'.toNat + 10)
  else if 'A' ≤ c && c ≤ 'F' then some (c.toNat - 'A'.toNat + 10)
  else none

/-- Reads the four hexadecimal digits of an escape. Where fewer than four bytes are left the text
ends too early. -/
def hexEscape : List Char → Except Fault (Nat × List Char)
  | a :: b :: c :: d :: rest =>
    match hexDigit? a, hexDigit? b, hexDigit? c, hexDigit? d with
    | some a, some b, some c, some d => .ok (((a * 16 + b) * 16 + c) * 16 + d, rest)
    | _, _, _, _ => .error .malformed
  | short =>
    .error (if (String.ofList short).utf8ByteSize < 4 then .truncated else .malformed)

/-- A leading surrogate, the first half of a pair. -/
def isLeading (n : Nat) : Bool := 0xD800 ≤ n && n ≤ 0xDBFF

/-- A trailing surrogate, the second half of a pair. -/
def isTrailing (n : Nat) : Bool := 0xDC00 ≤ n && n ≤ 0xDFFF

/-- Reads the digits behind `\u`, and the second half where they are the first half of a pair. -/
def unicodeEscape (cs : List Char) : Except Fault (Char × List Char) :=
  match hexEscape cs with
  | .error e => .error e
  | .ok (n, rest) =>
    if isTrailing n then .error .malformed
    else if isLeading n then
      match rest with
      | [] | ['\\'] => .error .truncated
      | '\\' :: 'u' :: rest =>
        match hexEscape rest with
        | .error e => .error e
        | .ok (m, rest) =>
          if isTrailing m then
            .ok (Char.ofNat (0x10000 + (n - 0xD800) * 0x400 + (m - 0xDC00)), rest)
          else .error .malformed
      | _ => .error .malformed
    else .ok (Char.ofNat n, rest)

/-- Reads what stands behind a backslash. -/
def escape : List Char → Except Fault (Char × List Char)
  | [] => .error .truncated
  | c :: rest =>
    match c with
    | '"' => .ok ('"', rest)
    | '\\' => .ok ('\\', rest)
    | '/' => .ok ('/', rest)
    | 'b' => .ok ('\x08', rest)
    | 'f' => .ok ('\x0c', rest)
    | 'n' => .ok ('\n', rest)
    | 'r' => .ok ('\r', rest)
    | 't' => .ok ('\t', rest)
    | 'u' => unicodeEscape rest
    | _ => .error .malformed

theorem hexEscape_length {cs rest : List Char} {n : Nat} (h : hexEscape cs = .ok (n, rest)) :
    rest.length < cs.length := by
  unfold hexEscape at h
  split at h
  · split at h
    · simp only [Except.ok.injEq, Prod.mk.injEq] at h
      simp only [← h.2, List.length_cons]
      omega
    · simp at h
  · simp at h

theorem unicodeEscape_length {cs rest : List Char} {c : Char}
    (h : unicodeEscape cs = .ok (c, rest)) : rest.length < cs.length := by
  unfold unicodeEscape at h
  split at h
  · simp at h
  · rename_i n rest' hn
    have h₁ := hexEscape_length hn
    split at h
    · simp at h
    · split at h
      · split at h
        · simp at h
        · simp at h
        · rename_i rest''
          split at h
          · simp at h
          · rename_i m r hm
            have h₂ := hexEscape_length hm
            split at h
            · simp only [Except.ok.injEq, Prod.mk.injEq] at h
              simp only [← h.2]
              simp only [List.length_cons] at h₁
              omega
            · simp at h
        · simp at h
      · simp only [Except.ok.injEq, Prod.mk.injEq] at h
        simpa [← h.2] using h₁

theorem escape_length {cs rest : List Char} {c : Char} (h : escape cs = .ok (c, rest)) :
    rest.length < cs.length := by
  unfold escape at h
  split at h
  · simp at h
  · rename_i d tail
    split at h <;> first
      | (have hl := unicodeEscape_length h; simp only [List.length_cons]; omega)
      | (simp only [Except.ok.injEq, Prod.mk.injEq] at h; simp [← h.2])
      | simp at h

/-- Reads a string behind its opening quote: its characters, and what follows the closing quote. -/
def stringBody (cs : List Char) : Except Fault (List Char × List Char) :=
  match cs with
  | [] => .error .truncated
  | c :: rest =>
    if c = '"' then .ok ([], rest)
    else if c = '\\' then
      match h : escape rest with
      | .error e => .error e
      | .ok (d, rest') =>
        have := escape_length h
        (stringBody rest').map fun (s, r) ↦ (d :: s, r)
    else if c.toNat < 0x20 then .error .malformed
    else (stringBody rest).map fun (s, r) ↦ (c :: s, r)
termination_by cs.length
decreasing_by all_goals (simp only [List.length_cons]; omega)

theorem stringBody_length {cs s rest : List Char} (h : stringBody cs = .ok (s, rest)) :
    rest.length < cs.length := by
  fun_induction stringBody cs generalizing s rest with
  | case1 => simp at h
  | case2 => simp_all
  | case3 => simp at h
  | case4 rest' d r _ _ _ ih =>
    cases hb : stringBody r with
    | error e => simp [hb, Except.map] at h
    | ok p =>
      obtain ⟨s', r'⟩ := p
      have := ih hb
      simp only [hb, Except.map, Except.ok.injEq, Prod.mk.injEq] at h
      simp only [← h.2, List.length_cons]
      omega
  | case5 => simp at h
  | case6 c rest' _ _ _ ih =>
    cases hb : stringBody rest' with
    | error e => simp [hb, Except.map] at h
    | ok p =>
      obtain ⟨s', r'⟩ := p
      have := ih hb
      simp only [hb, Except.map, Except.ok.injEq, Prod.mk.injEq] at h
      simp only [← h.2, List.length_cons]
      omega

/-! ### Words and numbers -/

/-- Drops the given characters from the start of a text. -/
def dropWord : (word text : List Char) → Except Fault (List Char)
  | [], text => .ok text
  | _ :: _, [] => .error .truncated
  | w :: word, c :: text => if c = w then dropWord word text else .error .malformed

/-- The largest significand; digits that would take it further only shift the exponent. -/
def maxSignificand : Nat := 0xFFFFFFFFFFFFFFFF

/-- A decimal number `significand * 10 ^ exponent`, as far as it has been read. -/
structure Decimal where
  /-- The leading digits. -/
  significand : Nat := 0
  /-- The power of ten that they are scaled by. -/
  exponent : Int := 0

/-- The significand with one more digit, if it does not become too large. -/
def Decimal.push? (d : Decimal) (c : Char) : Option Nat :=
  let n := d.significand * 10 + (c.toNat - '0'.toNat)
  if n ≤ maxSignificand then some n else none

/-- Reads digits in front of the point. Once one does not fit, it and all that follow are only
counted. -/
def Decimal.pushInteger (d : Decimal) (digits : List Char) : Decimal :=
  match digits with
  | [] => d
  | c :: rest =>
    match d.push? c with
    | some n => pushInteger { d with significand := n } rest
    | none => { d with exponent := d.exponent + (rest.length + 1) }

/-- Reads digits behind the point. Once one does not fit, it and all that follow are dropped. -/
def Decimal.pushFraction (d : Decimal) (digits : List Char) : Decimal :=
  match digits with
  | [] => d
  | c :: rest =>
    match d.push? c with
    | some n => pushFraction ⟨n, d.exponent - 1⟩ rest
    | none => d

/-- The largest power of ten in double precision. -/
def maxPower : Nat := 308

/-- Whether a number is beyond the range of double precision, computed as the product of the
significand and the power of ten, each rounded. -/
def Decimal.overflows (d : Decimal) : Bool :=
  match d.exponent with
  | .negSucc _ => false
  | .ofNat e =>
    d.significand ≠ 0 && (maxPower < e ||
      Binary64.infinity ≤
        Binary64.nearest (Binary64.nearest d.significand * Binary64.nearest (Binary64.tenPow e)))

/-- The number that digits stand for. -/
def digitsValue (digits : List Char) : Nat :=
  digits.foldl (fun n c ↦ n * 10 + (c.toNat - '0'.toNat)) 0

/-- The leading digits of a text, and what follows them. -/
def spanDigits (cs : List Char) : List Char × List Char :=
  (cs.takeWhile Char.isDigit, cs.dropWhile Char.isDigit)

/-- What follows a number that has been read completely. -/
def endNumber (d : Decimal) (rest : List Char) : Except Fault (List Char) :=
  if d.overflows then .error .malformed else .ok rest

/-- Reads the sign and the digits of an exponent. -/
def exponentPart (d : Decimal) (cs : List Char) : Except Fault (List Char) :=
  let (negative, cs) := match cs with
    | '+' :: rest => (false, rest)
    | '-' :: rest => (true, rest)
    | _ => (false, cs)
  match spanDigits cs with
  | ([], []) => .error .truncated
  | ([], _) => .error .malformed
  | (digits, rest) =>
    let e : Int := digitsValue digits
    endNumber { d with exponent := if negative then d.exponent - e else d.exponent + e } rest

/-- Reads an exponent, if there is one. -/
def exponentOrEnd (d : Decimal) : List Char → Except Fault (List Char)
  | 'e' :: rest | 'E' :: rest => exponentPart d rest
  | rest => endNumber d rest

/-- Reads a fraction and an exponent, as far as there are any. -/
def fractionOrEnd (d : Decimal) : List Char → Except Fault (List Char)
  | '.' :: rest =>
    match spanDigits rest with
    | ([], []) => .error .truncated
    | ([], _) => .error .malformed
    | (digits, rest) => exponentOrEnd (d.pushFraction digits) rest
  | rest => exponentOrEnd d rest

/-- Reads a number without its sign: what follows it. -/
def numberBody (cs : List Char) : Except Fault (List Char) :=
  match spanDigits cs with
  | ([], []) => .error .truncated
  | ([], _) => .error .malformed
  | (['0'], rest) => fractionOrEnd {} rest
  | ('0' :: _, _) => .error .malformed
  | (digits, rest) => fractionOrEnd (Decimal.pushInteger {} digits) rest

theorem length_dropWord {word text rest : List Char} (h : dropWord word text = .ok rest) :
    rest.length ≤ text.length := by
  fun_induction dropWord word text with
  | case1 => simp_all
  | case2 => simp at h
  | case3 word w text ih =>
    have := ih h
    simp only [List.length_cons]
    omega
  | case4 => simp at h

theorem length_spanDigits (cs : List Char) :
    (spanDigits cs).1.length + (spanDigits cs).2.length = cs.length := by
  rw [← List.length_append, spanDigits, List.takeWhile_append_dropWhile]

theorem length_endNumber {d : Decimal} {cs rest : List Char} (h : endNumber d cs = .ok rest) :
    rest.length ≤ cs.length := by
  unfold endNumber at h
  split at h <;> simp_all

theorem length_exponentPart {d : Decimal} {cs rest : List Char}
    (h : exponentPart d cs = .ok rest) : rest.length ≤ cs.length := by
  unfold exponentPart at h
  split at h
  rename_i sign after hs
  have h₁ : after.length ≤ cs.length := by
    split at hs <;> simp [← (Prod.mk.inj hs).2]
  have h₂ := length_spanDigits after
  split at h
  · simp at h
  · simp at h
  · rename_i heq
    rw [heq] at h₂
    have := length_endNumber h
    simp only at h₂
    omega

theorem length_exponentOrEnd {d : Decimal} {cs rest : List Char}
    (h : exponentOrEnd d cs = .ok rest) : rest.length ≤ cs.length := by
  unfold exponentOrEnd at h
  split at h
  · have := length_exponentPart h
    simp only [List.length_cons]
    omega
  · have := length_exponentPart h
    simp only [List.length_cons]
    omega
  · exact length_endNumber h

theorem length_fractionOrEnd {d : Decimal} {cs rest : List Char}
    (h : fractionOrEnd d cs = .ok rest) : rest.length ≤ cs.length := by
  unfold fractionOrEnd at h
  split at h
  · rename_i tail
    have h₂ := length_spanDigits tail
    split at h
    · simp at h
    · simp at h
    · rename_i heq
      rw [heq] at h₂
      have := length_exponentOrEnd h
      simp only [List.length_cons]
      simp only at h₂
      omega
  · exact length_exponentOrEnd h

theorem length_numberBody {cs rest : List Char} (h : numberBody cs = .ok rest) :
    rest.length < cs.length := by
  unfold numberBody at h
  have h₂ := length_spanDigits cs
  split at h
  · simp at h
  · simp at h
  · rename_i heq
    rw [heq] at h₂
    have := length_fractionOrEnd h
    simp only [List.length_cons, List.length_nil] at h₂
    omega
  · simp at h
  · rename_i digits tail h₀ h₁ _ _ heq
    rw [heq] at h₂
    have := length_fractionOrEnd h
    have : 0 < digits.length := by
      cases digits with
      | nil => exact absurd rfl h₁
      | cons => simp
    simp only at h₂
    omega

/-! ### Texts -/

/-- The blanks that may stand between tokens. -/
def isBlank (c : Char) : Bool := c = ' ' || c = '\n' || c = '\t' || c = '\r'

/-- The tokens of a text. -/
def tokens (cs : List Char) : List Token :=
  match cs with
  | [] => []
  | c :: rest =>
    if isBlank c then tokens rest
    else match c with
      | '\x7b' => .beginObject :: tokens rest
      | '\x7d' => .endObject :: tokens rest
      | '[' => .beginArray :: tokens rest
      | ']' => .endArray :: tokens rest
      | ':' => .colon :: tokens rest
      | ',' => .comma :: tokens rest
      | '"' =>
        match h : stringBody rest with
        | .ok (s, rest') =>
          have := stringBody_length h
          .string (String.ofList s) :: tokens rest'
        | .error e => [.badString e]
      | 'n' =>
        match h : dropWord ['u', 'l', 'l'] rest with
        | .ok rest' => have := length_dropWord h; .null :: tokens rest'
        | .error e => [.badWord e]
      | 't' =>
        match h : dropWord ['r', 'u', 'e'] rest with
        | .ok rest' => have := length_dropWord h; .bool true :: tokens rest'
        | .error e => [.badWord e]
      | 'f' =>
        match h : dropWord ['a', 'l', 's', 'e'] rest with
        | .ok rest' => have := length_dropWord h; .bool false :: tokens rest'
        | .error e => [.badWord e]
      | '-' =>
        match h : numberBody rest with
        | .ok rest' => have := length_numberBody h; .number :: tokens rest'
        | .error e => [.badWord e]
      | c =>
        if c.isDigit then
          match h : numberBody (c :: rest) with
          | .ok rest' => have := length_numberBody h; .number :: tokens rest'
          | .error e => [.badWord e]
        else [.stray]
termination_by cs.length
decreasing_by
  all_goals
    simp only [List.length_cons] at *
    omega

end TemporalMonitor.Json
