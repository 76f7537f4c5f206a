import TemporalMonitor.Csv.Sheet

/-!
# Texts as bytes

A text that is written in UTF-8 is read back from its bytes (`decode_encode`), and so it is from
bytes that were trimmed before (`trimBytes_ofString`): the blanks that are taken off are characters
of one byte each, and no other character has such a byte in it. Taking off these few blanks first
makes no difference to a text that is trimmed afterwards (`trimBy_trimBy`).
-/

namespace TemporalMonitor

namespace Text

/-! ### Decoding -/

namespace Utf8

theorem utf8EncodeChar_ne_nil (c : Char) : String.utf8EncodeChar c ≠ [] := by
  intro hnil
  have hlength := String.length_utf8EncodeChar c
  rw [hnil] at hlength
  exact Nat.ne_of_gt c.utf8Size_pos hlength.symm

theorem ofString_ne_nil {s : String} (h : s ≠ "") : ofString s ≠ [] := by
  intro hnil
  rw [ofString, encode, List.flatMap_eq_nil_iff] at hnil
  obtain ⟨c, hc⟩ := List.exists_mem_of_ne_nil s.toList (by simpa using h)
  exact utf8EncodeChar_ne_nil c (hnil c hc)

theorem head?_utf8EncodeChar_append (c : Char) (rest : List UInt8) :
    head? (String.utf8EncodeChar c ++ rest) = some c := by
  have hlength : (String.utf8EncodeChar c).length ≤ 4 := by
    rw [String.length_utf8EncodeChar]
    exact c.utf8Size_le_four
  rw [head?, List.take_append, List.take_of_length_le hlength, List.toByteArray_append]
  exact ByteArray.utf8DecodeChar?_utf8EncodeChar_append

/-- The bytes of a character are read as this character. -/
theorem decodeFrom_utf8EncodeChar_append {start : Nat} {c : Char} {rest : List UInt8}
    {cs : List Char} (h : decodeFrom (start + c.utf8Size) rest = .ok cs) :
    decodeFrom start (String.utf8EncodeChar c ++ rest) = .ok (c :: cs) := by
  have hhead := head?_utf8EncodeChar_append c rest
  have hlength := String.length_utf8EncodeChar c
  obtain ⟨b, bs, hbytes⟩ := List.exists_cons_of_ne_nil (utf8EncodeChar_ne_nil c)
  rw [hbytes] at hhead hlength ⊢
  rw [List.cons_append] at hhead ⊢
  have hdrop : (bs ++ rest).drop (c.utf8Size - 1) = rest := by
    rw [← hlength]
    exact List.drop_left
  rw [decodeFrom, hhead]
  simp only [hdrop, h]

theorem decodeFrom_encode (start : Nat) (cs : List Char) :
    decodeFrom start (encode cs) = .ok cs := by
  induction cs generalizing start with
  | nil => rw [encode, List.flatMap_nil, decodeFrom]
  | cons c cs ih =>
    exact decodeFrom_utf8EncodeChar_append (ih (start + c.utf8Size))

/-- **Characters are read back from their bytes.** -/
theorem decode_encode (cs : List Char) : decode (encode cs) = .ok cs :=
  decodeFrom_encode 0 cs

end Utf8

/-! ### Trimming -/

section TrimBy

variable {α β : Type} {p : α → Bool}

/-- What is left between the elements at both ends that satisfy `p`. -/
def trimBy (p : α → Bool) (xs : List α) : List α :=
  ((xs.dropWhile p).reverse.dropWhile p).reverse

/-- Only elements at the ends are taken off. -/
theorem exists_eq_append_trimBy (p : α → Bool) (xs : List α) :
    ∃ front back, xs = front ++ trimBy p xs ++ back ∧ (∀ x ∈ front, p x = true) ∧
      ∀ x ∈ back, p x = true := by
  have htake : ∀ ys : List α, ∀ y ∈ ys.takeWhile p, p y = true := fun ys ↦
    List.all_eq_true.1 List.all_takeWhile
  have hback : xs.dropWhile p = trimBy p xs ++ ((xs.dropWhile p).reverse.takeWhile p).reverse := by
    rw [trimBy, ← List.reverse_append, List.takeWhile_append_dropWhile, List.reverse_reverse]
  refine ⟨xs.takeWhile p, ((xs.dropWhile p).reverse.takeWhile p).reverse, ?_, htake xs, ?_⟩
  · rw [List.append_assoc, ← hback, List.takeWhile_append_dropWhile]
  · intro x hx
    exact htake _ x (List.mem_reverse.1 hx)

/-- Elements at the ends that satisfy `p` do not matter. -/
theorem trimBy_append_append {front back : List α} (hfront : ∀ x ∈ front, p x = true)
    (hback : ∀ x ∈ back, p x = true) (xs : List α) :
    trimBy p (front ++ xs ++ back) = trimBy p xs := by
  rw [trimBy, trimBy, List.append_assoc, List.dropWhile_append_of_pos hfront, List.dropWhile_append]
  by_cases hnil : (xs.dropWhile p).isEmpty = true
  · have hdrop : (back ++ []).dropWhile p = [].dropWhile p := List.dropWhile_append_of_pos hback
    rw [List.append_nil] at hdrop
    rw [if_pos hnil, List.isEmpty_iff.1 hnil, hdrop, List.dropWhile_nil]
  · have hreverse : ∀ x ∈ back.reverse, p x = true := fun x hx ↦ hback x (List.mem_reverse.1 hx)
    rw [if_neg hnil, List.reverse_append, List.dropWhile_append_of_pos hreverse]

/-- Trimming less before makes no difference. -/
theorem trimBy_trimBy {q : α → Bool} (h : ∀ x, q x = true → p x = true) (xs : List α) :
    trimBy p (trimBy q xs) = trimBy p xs := by
  obtain ⟨front, back, heq, hfront, hback⟩ := exists_eq_append_trimBy q xs
  have htrim := trimBy_append_append (fun x hx ↦ h x (hfront x hx)) (fun x hx ↦ h x (hback x hx))
    (trimBy q xs)
  rw [← heq] at htrim
  exact htrim.symm

theorem dropWhile_flatMap {q : β → Bool} {f : β → List α}
    (hyes : ∀ b, q b = true → ∀ a ∈ f b, p a = true)
    (hno : ∀ b, q b = false → f b ≠ [] ∧ ∀ a ∈ f b, p a = false) (bs : List β) :
    (bs.flatMap f).dropWhile p = (bs.dropWhile q).flatMap f := by
  induction bs with
  | nil => rfl
  | cons b bs ih =>
    rw [List.flatMap_cons]
    cases hb : q b with
    | true => rw [List.dropWhile_append_of_pos (hyes b hb), ih, List.dropWhile_cons_of_pos hb]
    | false =>
      obtain ⟨hne, hall⟩ := hno b hb
      obtain ⟨a, as, has⟩ := List.exists_cons_of_ne_nil hne
      have ha : ¬p a = true := by
        rw [hall a (has ▸ List.mem_cons_self)]
        exact Bool.false_ne_true
      rw [List.dropWhile_cons_of_neg (by rw [hb]; exact Bool.false_ne_true), List.flatMap_cons, has,
        List.cons_append, List.dropWhile_cons_of_neg ha]

/-- Trimming what is written element by element, where an element is written in parts that all
satisfy `p` or all do not. -/
theorem trimBy_flatMap {q : β → Bool} {f : β → List α}
    (hyes : ∀ b, q b = true → ∀ a ∈ f b, p a = true)
    (hno : ∀ b, q b = false → f b ≠ [] ∧ ∀ a ∈ f b, p a = false) (bs : List β) :
    trimBy p (bs.flatMap f) = (trimBy q bs).flatMap f := by
  have hyes' : ∀ b, q b = true → ∀ a ∈ (List.reverse ∘ f) b, p a = true := fun b hb a ha ↦
    hyes b hb a (List.mem_reverse.1 ha)
  have hno' : ∀ b, q b = false → (List.reverse ∘ f) b ≠ [] ∧
      ∀ a ∈ (List.reverse ∘ f) b, p a = false := fun b hb ↦
    ⟨fun hnil ↦ (hno b hb).1 (List.reverse_eq_nil_iff.1 hnil),
      fun a ha ↦ (hno b hb).2 a (List.mem_reverse.1 ha)⟩
  rw [trimBy, dropWhile_flatMap hyes hno, List.reverse_flatMap, dropWhile_flatMap hyes' hno',
    List.reverse_flatMap, trimBy]
  simp [Function.comp_def]

end TrimBy

end Text

namespace Csv

open Text

/-- The characters whose only byte is a blank. -/
def isBlankAscii (c : Char) : Bool := c = ' ' || c = '\t' || c = '\n' || c = '\x0C' || c = '\r'

theorem isBlankAscii_iff {c : Char} : isBlankAscii c = true ↔
    c = ' ' ∨ c = '\t' ∨ c = '\n' ∨ c = '\x0C' ∨ c = '\r' := by
  simp [isBlankAscii, or_assoc]

theorem isBlank_of_isBlankAscii {c : Char} (h : isBlankAscii c = true) : isBlank c = true := by
  rcases isBlankAscii_iff.1 h with rfl | rfl | rfl | rfl | rfl <;> decide

theorem isBlankByte_of_mem {c : Char} (h : isBlankAscii c = true) :
    ∀ b ∈ String.utf8EncodeChar c, isBlankByte b = true := by
  rcases isBlankAscii_iff.1 h with rfl | rfl | rfl | rfl | rfl <;> decide +kernel

/-- The bytes of a character that has more than one lie beyond those that stand for themselves. -/
theorem le_toNat_of_mem {c : Char} (h : 0x7F < c.toNat) {b : UInt8}
    (hb : b ∈ String.utf8EncodeChar c) : 0x80 ≤ b.toNat := by
  have hval : ¬c.val.toNat ≤ 0x7F := Nat.not_le.2 h
  simp only [String.utf8EncodeChar, if_neg hval] at hb
  split at hb
  · simp only [List.mem_cons, List.not_mem_nil, or_false] at hb
    rcases hb with rfl | rfl <;> simp only [UInt8.toNat_ofNat'] <;> omega
  · split at hb
    · simp only [List.mem_cons, List.not_mem_nil, or_false] at hb
      rcases hb with rfl | rfl | rfl <;> simp only [UInt8.toNat_ofNat'] <;> omega
    · simp only [List.mem_cons, List.not_mem_nil, or_false] at hb
      rcases hb with rfl | rfl | rfl | rfl <;> simp only [UInt8.toNat_ofNat'] <;> omega

theorem isBlankByte_iff {b : UInt8} : isBlankByte b = true ↔
    b.toNat = 0x20 ∨ b.toNat = 0x09 ∨ b.toNat = 0x0A ∨ b.toNat = 0x0C ∨ b.toNat = 0x0D := by
  simp [isBlankByte, ← UInt8.toNat_inj, or_assoc]

theorem not_isBlankByte_of_mem {c : Char} (h : isBlankAscii c = false) :
    ∀ b ∈ String.utf8EncodeChar c, isBlankByte b = false := by
  intro b hb
  rw [← Bool.not_eq_true, isBlankByte_iff]
  intro hblank
  rcases Nat.lt_or_ge 0x7F c.toNat with hc | hc
  · have hle := le_toNat_of_mem hc hb
    omega
  · -- the only byte is the code of the character, which is then one of the five
    have hval : c.val.toNat ≤ 0x7F := hc
    simp only [String.utf8EncodeChar, if_pos hval, List.mem_singleton] at hb
    have hcode : b.toNat = c.toNat := by
      rw [hb, UInt8.toNat_ofNat', Nat.mod_eq_of_lt (by omega)]
      rfl
    rw [hcode] at hblank
    refine absurd (isBlankAscii_iff.2 ?_) (Bool.eq_false_iff.1 h)
    rw [← Char.ofNat_toNat c]
    rcases hblank with hc | hc | hc | hc | hc <;> rw [hc] <;> decide

/-- Trimming the bytes of a text takes off characters. -/
theorem trimBytes_ofString (s : String) :
    trimBytes (Utf8.ofString s) = Utf8.encode (trimBy isBlankAscii s.toList) :=
  trimBy_flatMap (fun _ ↦ isBlankByte_of_mem)
    (fun c hc ↦ ⟨Utf8.utf8EncodeChar_ne_nil c, not_isBlankByte_of_mem hc⟩) s.toList

theorem trim_trimBy (s : String) :
    Text.trim (String.ofList (trimBy isBlankAscii s.toList)) = Text.trim s := by
  rw [Text.trim, Text.trim, String.toList_ofList]
  exact congrArg String.ofList (trimBy_trimBy (fun _ ↦ isBlank_of_isBlankAscii) s.toList)

end Csv

end TemporalMonitor
