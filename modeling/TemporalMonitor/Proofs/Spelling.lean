import TemporalMonitor.Text.Digits
import TemporalMonitor.Text.Quoted

/-!
# Texts that show where they end

A way of writing is self-delimiting if the text tells what was written and where it ends, whatever
follows (`SelfDelimiting`). Texts of this kind can stand side by side and stay unambiguous.

Digits alone do not show where a number ends, but a mark behind them does, if it is no digit
(`selfDelimiting_repr`). Zeros in front change nothing, since the digits keep their value
(`selfDelimiting_padded`). A quoted text is self-delimiting (`selfDelimiting_quote`): escaped
characters are, and none of them starts with the quote that ends the text.
-/

namespace TemporalMonitor.Text

variable {α β : Type} {write : α → String}

/-- Whatever follows, the text tells what was written. -/
def SelfDelimiting (write : α → String) : Prop :=
  ∀ ⦃a b : α⦄ ⦃rest rest' : String⦄, write a ++ rest = write b ++ rest' → a = b

namespace SelfDelimiting

/-- It also tells where it ends. -/
theorem append_inj (h : SelfDelimiting write) {a b : α} {rest rest' : String}
    (hab : write a ++ rest = write b ++ rest') : a = b ∧ rest = rest' := by
  obtain rfl := h hab
  exact ⟨rfl, (String.append_right_inj _).1 hab⟩

theorem injective (h : SelfDelimiting write) : Function.Injective write :=
  fun _ _ hab ↦ h (congrArg (· ++ "") hab)

theorem comp (h : SelfDelimiting write) {f : β → α} (hf : Function.Injective f) :
    SelfDelimiting fun b ↦ write (f b) :=
  fun _ _ _ _ hab ↦ hf (h hab)

theorem prepend (h : SelfDelimiting write) (front : String) :
    SelfDelimiting fun a ↦ front ++ write a := by
  intro a b rest rest' hab
  rw [String.append_assoc, String.append_assoc, String.append_right_inj] at hab
  exact h hab

theorem append (h : SelfDelimiting write) (back : String) :
    SelfDelimiting fun a ↦ write a ++ back := by
  intro a b rest rest' hab
  rw [String.append_assoc, String.append_assoc] at hab
  exact h hab

end SelfDelimiting

/-! ### Marks -/

/-- A text is cut at the first place where a mark can start. -/
theorem append_mark_inj {mark : String} {c : Char} (hmark : mark.toList.head? = some c)
    {s t rest rest' : String} (hs : c ∉ s.toList) (ht : c ∉ t.toList)
    (h : s ++ mark ++ rest = t ++ mark ++ rest') : s = t ∧ rest = rest' := by
  obtain ⟨cs, hcs⟩ := List.head?_eq_some_iff.1 hmark
  have hlists : s.toList ++ c :: (cs ++ rest.toList) = t.toList ++ c :: (cs ++ rest'.toList) := by
    simpa [hcs] using congrArg String.toList h
  have hpieces := congrArg (List.splitOn c) hlists
  rw [List.splitOn_append_cons_self_of_not_mem hs, List.splitOn_append_cons_self_of_not_mem ht]
    at hpieces
  obtain rfl : s = t := String.toList_injective (List.cons.inj hpieces).1
  exact ⟨rfl, (String.append_right_inj _).1 h⟩

theorem selfDelimiting_of_injective {mark : String} {c : Char} (hmark : mark.toList.head? = some c)
    (hinj : Function.Injective write) (hc : ∀ a, c ∉ (write a).toList) :
    SelfDelimiting fun a ↦ write a ++ mark :=
  fun a b _ _ h ↦ hinj (append_mark_inj hmark (hc a) (hc b) h).1

/-- Texts in a row, up to a mark that none of them starts with. -/
theorem SelfDelimiting.join (h : SelfDelimiting write) {mark : String} {c : Char}
    (hmark : mark.toList.head? = some c)
    (hfirst : ∀ a, ∃ first, (write a).toList.head? = some first ∧ first ≠ c) :
    SelfDelimiting fun as : List α ↦ String.join (as.map write) ++ mark := by
  have hne : ∀ a as (rest rest' : String),
      mark ++ rest ≠ String.join ((a :: as).map write) ++ mark ++ rest' := by
    intro a as rest rest' heq
    obtain ⟨first, hhead, hc⟩ := hfirst a
    have hheads := congrArg (List.head? ∘ String.toList) heq
    simp only [List.map_cons, String.join_cons, Function.comp, String.toList_append,
      List.append_assoc, List.head?_append, hmark, hhead] at hheads
    exact hc (Option.some.inj hheads).symm
  intro as bs rest rest' heq
  induction as generalizing bs with
  | nil =>
    cases bs with
    | nil => rfl
    | cons b bs => exact absurd heq (hne b bs rest rest')
  | cons a as ih =>
    cases bs with
    | nil => exact absurd heq.symm (hne a as rest' rest)
    | cons b bs =>
      simp only [List.map_cons, String.join_cons, String.append_assoc] at heq
      obtain ⟨rfl, htail⟩ := h.append_inj heq
      rw [ih (by simpa only [String.append_assoc] using htail)]

/-! ### Digits -/

theorem not_mem_toDigits {b : Nat} (hb : 1 < b) {c : Char} (hc : ∀ d : Nat, d.digitChar ≠ c)
    (n : Nat) : c ∉ Nat.toDigits b n := by
  induction n using Nat.strongRecOn with
  | ind n ih =>
    rw [Nat.toDigits_eq_if hb]
    split
    · simpa using (hc n).symm
    · have hlt : n / b < n := Nat.div_lt_self (by omega) hb
      simpa using ⟨ih (n / b) hlt, (hc (n % b)).symm⟩

theorem digitChar_inj : ∀ m < 16, ∀ n < 16, Nat.digitChar m = Nat.digitChar n → m = n := by
  decide

/-- The digits determine the number, as long as there are enough of them. -/
theorem toDigits_injective {b : Nat} (hb : 1 < b) (hle : b ≤ 16) :
    Function.Injective (Nat.toDigits b) := by
  intro m n h
  have hmod : ∀ k, k % b < 16 := fun k ↦ Nat.lt_of_lt_of_le (Nat.mod_lt k (by omega)) hle
  induction m using Nat.strongRecOn generalizing n with
  | ind m ih =>
    have hlength := congrArg List.length h
    rcases Nat.lt_or_ge m b with hm | hm <;> rcases Nat.lt_or_ge n b with hn | hn
    · rw [Nat.toDigits_of_lt_base hm, Nat.toDigits_of_lt_base hn] at h
      exact digitChar_inj m (by omega) n (by omega) (List.cons.inj h).1
    · rw [Nat.toDigits_of_lt_base hm, Nat.toDigits_of_base_le hb hn, List.length_append] at hlength
      exact absurd (Nat.succ.inj hlength).symm (Nat.ne_of_gt Nat.length_toDigits_pos)
    · rw [Nat.toDigits_of_lt_base hn, Nat.toDigits_of_base_le hb hm, List.length_append] at hlength
      exact absurd (Nat.succ.inj hlength) (Nat.ne_of_gt Nat.length_toDigits_pos)
    · rw [Nat.toDigits_of_base_le hb hm, Nat.toDigits_of_base_le hb hn] at h
      -- the last digits are those of the remainders, the digits before those of the quotients
      obtain ⟨hfront, hlast⟩ := List.append_inj' h rfl
      have hquotient := ih (m / b) (Nat.div_lt_self (by omega) hb) hfront
      have hremainder := digitChar_inj _ (hmod m) _ (hmod n) (List.cons.inj hlast).1
      rw [← Nat.div_add_mod m b, hquotient, hremainder, Nat.div_add_mod]

/-- Digits up to a mark that is no digit. -/
theorem selfDelimiting_toDigits {b : Nat} (hb : 1 < b) (hle : b ≤ 16) {mark : String} {c : Char}
    (hmark : mark.toList.head? = some c) (hc : ∀ d : Nat, d.digitChar ≠ c) :
    SelfDelimiting fun n ↦ String.ofList (Nat.toDigits b n) ++ mark := by
  refine selfDelimiting_of_injective hmark
    (fun m n h ↦ toDigits_injective hb hle (String.ofList_injective h)) fun n ↦ ?_
  rw [String.toList_ofList]
  exact not_mem_toDigits hb hc n

theorem selfDelimiting_repr {mark : String} {c : Char} (hmark : mark.toList.head? = some c)
    (hc : ∀ d : Nat, d.digitChar ≠ c) : SelfDelimiting fun n : Nat ↦ n.repr ++ mark := by
  simp only [Nat.repr_eq_ofList_toDigits]
  exact selfDelimiting_toDigits (by decide) (by decide) hmark hc

theorem toList_padded (width n : Nat) :
    (padded width n).toList =
      List.replicate (width - n.repr.length) '0' ++ Nat.toDigits 10 n := by
  have hzeros : ∀ k : Nat, ("".pushn '0' k).toList = List.replicate k '0' := by
    intro k
    rw [String.pushn_eq_repeat_push]
    induction k with
    | zero => rfl
    | succ k ih => rw [Nat.repeat, String.toList_push, ih, List.replicate_succ']
  rw [padded, String.toList_append, hzeros, Nat.toList_repr]

/-- Zeros in front do not hide the number. -/
theorem padded_injective (width : Nat) : Function.Injective (padded width) := by
  have hvalue : ∀ n, Nat.ofDigitChars 10 (padded width n).toList 0 = n := by
    intro n
    rw [toList_padded, Nat.ofDigitChars_append, Nat.ofDigitChars_replicate_zero, Nat.mul_zero,
      Nat.ofDigitChars_ten_toDigits]
  intro m n h
  rw [← hvalue m, h, hvalue n]

theorem not_mem_padded {c : Char} (hc : ∀ d : Nat, d.digitChar ≠ c) (width n : Nat) :
    c ∉ (padded width n).toList := by
  rw [toList_padded, List.mem_append]
  rintro (h | h)
  · exact hc 0 (List.eq_of_mem_replicate h).symm
  · exact not_mem_toDigits (by decide) hc n h

theorem selfDelimiting_padded (width : Nat) {mark : String} {c : Char}
    (hmark : mark.toList.head? = some c) (hc : ∀ d : Nat, d.digitChar ≠ c) :
    SelfDelimiting fun n ↦ padded width n ++ mark :=
  selfDelimiting_of_injective hmark (padded_injective width) (not_mem_padded hc width)

/-! ### Quoted texts -/

/-- The characters that have a backslash form of their own, each with its letter. -/
def letters : List (Char × Char) :=
  [('\x00', '0'), ('\t', 't'), ('\r', 'r'), ('\n', 'n'), ('\\', '\\'), ('"', '"')]

theorem letters_inj : ∀ x ∈ letters, ∀ y ∈ letters, x.2 = y.2 → x.1 = y.1 := by decide

theorem ne_of_mem_letters : ∀ x ∈ letters, x.2 ≠ 'u' := by decide

/-- The three ways of writing a character inside quotes. -/
theorem escape_cases (c : Char) :
    (∃ k, (c, k) ∈ letters ∧ escape c = String.ofList ['\\', k]) ∨ escape c = codePoint c ∨
      (c ≠ '\\' ∧ c ≠ '"' ∧ escape c = String.singleton c) := by
  by_cases hletter : c ∈ letters.map Prod.fst
  · left
    simp only [letters, List.map_cons, List.map_nil, List.mem_cons, List.not_mem_nil, or_false]
      at hletter
    rcases hletter with rfl | rfl | rfl | rfl | rfl | rfl
    · exact ⟨'0', by decide, rfl⟩
    · exact ⟨'t', by decide, rfl⟩
    · exact ⟨'r', by decide, rfl⟩
    · exact ⟨'n', by decide, rfl⟩
    · exact ⟨'\\', by decide, rfl⟩
    · exact ⟨'"', by decide, rfl⟩
  · right
    simp only [letters, List.map_cons, List.map_nil, List.mem_cons, List.not_mem_nil, or_false,
      not_or] at hletter
    obtain ⟨h0, ht, hr, hn, hbackslash, hquote⟩ := hletter
    rw [escape, if_neg h0, if_neg ht, if_neg hr, if_neg hn, if_neg hbackslash, if_neg hquote]
    split
    · exact .inl rfl
    · exact .inr ⟨hbackslash, hquote, rfl⟩

theorem toList_codePoint (c : Char) : (codePoint c).toList =
    '\\' :: 'u' :: '\x7b' :: (Nat.toDigits 16 c.toNat ++ ['\x7d']) := by
  simp [codePoint]

theorem selfDelimiting_codePoint : SelfDelimiting codePoint := by
  have hdigits : SelfDelimiting fun n ↦ String.ofList (Nat.toDigits 16 n) ++ "\x7d" :=
    selfDelimiting_toDigits (by decide) (by decide) rfl fun _ ↦ Nat.digitChar_ne '\x7d' rfl
  have hcodePoint : codePoint = fun c ↦
      "\\u\x7b" ++ (String.ofList (Nat.toDigits 16 c.toNat) ++ "\x7d") :=
    funext fun _ ↦ String.append_assoc
  rw [hcodePoint]
  exact (hdigits.comp fun _ _ ↦ Char.toNat_inj.1).prepend _

theorem selfDelimiting_escape : SelfDelimiting escape := by
  intro c d rest rest' h
  have hlists := congrArg String.toList h
  rw [String.toList_append, String.toList_append] at hlists
  -- the first two characters tell which of the three ways it is
  rcases escape_cases c with ⟨k, hk, hc⟩ | hc | ⟨hc', -, hc⟩ <;>
    rcases escape_cases d with ⟨l, hl, hd⟩ | hd | ⟨hd', -, hd⟩ <;>
    rw [hc, hd] at h hlists <;>
    simp only [String.toList_ofList, String.toList_singleton, toList_codePoint, List.cons_append,
      List.nil_append, List.cons.injEq, true_and] at hlists
  · exact letters_inj _ hk _ hl hlists.1
  · exact absurd hlists.1 (ne_of_mem_letters _ hk)
  · exact absurd hlists.1.symm hd'
  · exact absurd hlists.1.symm (ne_of_mem_letters _ hl)
  · exact selfDelimiting_codePoint h
  · exact absurd hlists.1.symm hd'
  · exact absurd hlists.1 hc'
  · exact absurd hlists.1 hc'
  · exact hlists.1

theorem exists_head?_escape (c : Char) :
    ∃ first, (escape c).toList.head? = some first ∧ first ≠ '"' := by
  rcases escape_cases c with ⟨k, -, hc⟩ | hc | ⟨-, hc', hc⟩
  · exact ⟨'\\', by rw [hc, String.toList_ofList]; rfl, by decide⟩
  · exact ⟨'\\', by rw [hc, toList_codePoint]; rfl, by decide⟩
  · exact ⟨c, by rw [hc, String.toList_singleton]; rfl, hc'⟩

/-- **A quoted text shows where it ends.** -/
theorem selfDelimiting_quote : SelfDelimiting quote := by
  have hbody : SelfDelimiting fun cs : List Char ↦ String.join (cs.map escape) ++ "\"" :=
    selfDelimiting_escape.join rfl exists_head?_escape
  have hquote : quote = fun s ↦ "\"" ++ (String.join (s.toList.map escape) ++ "\"") :=
    funext fun _ ↦ String.append_assoc
  rw [hquote]
  exact (hbody.comp fun _ _ ↦ String.toList_injective).prepend _

end TemporalMonitor.Text
