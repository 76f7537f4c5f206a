import Mathlib.Control.Monad.Basic
import TemporalMonitor.ByteStream

/-!
# Compressed files can be read

What `Gzip.encode` writes, `Gzip.decode` reads back, for all bytes (`decode_encode`). The statement
is carried by one fact per layer, each of them about what is written **followed by anything**, since
a reader does not know where its part ends before it has read it.

* A word of a code is read as its symbol, whatever bits follow (`Tree.decode_append`). For the fixed
  code that is checked word by word, without what follows.
* The words of bytes and the end of the block are read as these bytes, behind any output
  (`codedBlock_words`).
* Deflated data are inflated to the bytes, and what follows is found again from the next whole byte
  on, since fewer than eight bits are filled in (`inflate_deflate_append`).
-/

namespace TemporalMonitor.Gzip

/-! ### Bits and bytes -/

namespace Bits

@[simp]
theorem length_ofByte (b : UInt8) : (ofByte b).length = 8 := by
  simp [ofByte]

theorem ofBytes_append (bytes rest : List UInt8) :
    ofBytes (bytes ++ rest) = ofBytes bytes ++ ofBytes rest :=
  List.flatMap_append

@[simp]
theorem length_ofBytes (bytes : List UInt8) : (ofBytes bytes).length = 8 * bytes.length := by
  induction bytes with
  | nil => rfl
  | cons b bytes ih =>
    rw [ofBytes, List.flatMap_cons, List.length_append, length_ofByte, ← ofBytes, ih,
      List.length_cons]
    omega

theorem ofByte_toNat (b₀ b₁ b₂ b₃ b₄ b₅ b₆ b₇ : Bool) :
    ofByte (toNat [b₀, b₁, b₂, b₃, b₄, b₅, b₆, b₇]).toUInt8 = [b₀, b₁, b₂, b₃, b₄, b₅, b₆, b₇] := by
  revert b₀ b₁ b₂ b₃ b₄ b₅ b₆ b₇
  decide +kernel

theorem ofBytes_pushBytes (out : Array UInt8) (bits : Bits) (h : bits.length % 8 = 0) :
    ofBytes (pushBytes out bits).toList = ofBytes out.toList ++ bits := by
  fun_induction pushBytes out bits with
  | case1 out b₀ b₁ b₂ b₃ b₄ b₅ b₆ b₇ rest ih =>
    have hrest : rest.length % 8 = 0 := by
      simp only [List.length_cons] at h
      omega
    rw [ih hrest, Array.toList_push, ofBytes_append, List.append_assoc]
    congr 1
    simp only [ofBytes, List.flatMap_cons, List.flatMap_nil, List.append_nil, ofByte_toNat]
    rfl
  | case2 bits out hshort =>
    -- fewer than eight bits that fill whole bytes are none
    rcases bits with
      _ | ⟨b₀, _ | ⟨b₁, _ | ⟨b₂, _ | ⟨b₃, _ | ⟨b₄, _ | ⟨b₅, _ | ⟨b₆, _ | ⟨b₇, rest⟩⟩⟩⟩⟩⟩⟩⟩
    · exact (List.append_nil _).symm
    iterate 7 exact absurd h (by simp)
    exact absurd rfl (hshort b₀ b₁ b₂ b₃ b₄ b₅ b₆ b₇ rest)

/-- Bits that fill whole bytes are the bits of these bytes. -/
theorem ofBytes_toBytes {bits : Bits} (h : bits.length % 8 = 0) : ofBytes (toBytes bits) = bits :=
  ofBytes_pushBytes #[] bits h

/-- Filling up adds fewer than eight bits. -/
theorem exists_pad_eq (bits : Bits) : ∃ filling : Bits, pad bits = bits ++ filling ∧
    filling.length < 8 ∧ (bits.length + filling.length) % 8 = 0 := by
  refine ⟨_, rfl, ?_, ?_⟩
  · rw [List.length_replicate]
    exact Nat.mod_lt _ (by decide)
  · rw [List.length_replicate]
    omega

theorem align_append_ofBytes {filling : Bits} (h : filling.length < 8) (bytes : List UInt8) :
    align (filling ++ ofBytes bytes) = ofBytes bytes := by
  have hlength : (filling ++ ofBytes bytes).length % 8 = filling.length := by
    rw [List.length_append, length_ofBytes, Nat.add_mul_mod_self_left, Nat.mod_eq_of_lt h]
  rw [align, hlength, List.drop_left]

end Bits

/-! ### Words -/

/-- What follows a word stays behind. -/
theorem Tree.decode_append {t : Tree} {word left : Bits} {symbol : Nat}
    (h : t.decode word = .ok (symbol, left)) (rest : Bits) :
    t.decode (word ++ rest) = .ok (symbol, left ++ rest) := by
  fun_induction Tree.decode t word with
  | case1 => cases h
  | case2 =>
    cases h
    rw [Tree.decode]
  | case3 => cases h
  | case4 zero one bits ih => exact ih h
  | case5 zero one b bits hb ih =>
    rw [List.cons_append, Tree.decode, if_neg hb]
    exact ih h

theorem Code.decode_append {c : Code} {word left : Bits} {symbol : Nat}
    (h : c.decode word = .ok (symbol, left)) (rest : Bits) :
    c.decode (word ++ rest) = .ok (symbol, left ++ rest) := by
  match word, h with
  | true :: bits, h => exact Tree.decode_append (t := c.one) h rest
  | false :: bits, h => exact Tree.decode_append (t := c.zero) h rest

/-- The fixed code has a word for each byte and for the end of a block. -/
theorem exists_fixedCodes : ∃ codes, fixedCodes? = some codes ∧
    ∀ symbol : Fin 257, codes.literals.decode (fixedWord symbol) = .ok (symbol.val, []) := by
  have h : (fixedCodes?.map fun codes ↦ decide (∀ symbol : Fin 257,
      codes.literals.decode (fixedWord symbol) = .ok (symbol.val, []))) = some true := by
    decide +kernel
  obtain ⟨codes, hcodes, hall⟩ := Option.map_eq_some_iff.1 h
  exact ⟨codes, hcodes, of_decide_eq_true hall⟩

/-! ### Blocks -/

section Block

variable {codes : BlockCodes} {bits rest : Bits}

/-- Reading goes on behind a byte, and ends behind the end of the block. -/
theorem codedBlock_of_item {symbol : Nat} {behind : Bits} {i : Item}
    (hsymbol : codes.literals.decode bits = .ok (symbol, behind))
    (hitem : item codes symbol behind = .ok (i, rest)) (out : Array UInt8) :
    (∀ b, i = .byte b → codedBlock codes out bits = codedBlock codes (out.push b) rest) ∧
      (i = .endOfBlock → codedBlock codes out bits = ⟨out, .ok rest⟩) := by
  rw [codedBlock]
  split
  · next e herror => rw [hsymbol] at herror; cases herror
  · next symbol' behind' hok =>
    rw [hsymbol] at hok
    cases hok
    split
    · next e herror => rw [hitem] at herror; cases herror
    · next i' rest' hok =>
      rw [hitem] at hok
      cases hok
      constructor
      · rintro b rfl; rfl
      · rintro rfl; rfl

theorem item_byte (b : UInt8) (bits : Bits) : item codes b.toNat bits = .ok (.byte b, bits) := by
  rw [item, if_pos b.toNat_lt]
  simp

/-- **The words of bytes are read as these bytes**, up to the end of the block. -/
theorem codedBlock_words
    (hcodes : ∀ symbol : Fin 257, codes.literals.decode (fixedWord symbol) = .ok (symbol.val, []))
    (bytes : List UInt8) (out : Array UInt8) (rest : Bits) :
    codedBlock codes out
        (bytes.flatMap (fun b ↦ fixedWord b.toNat) ++ (fixedWord endSymbol ++ rest)) =
      ⟨out ++ bytes.toArray, .ok rest⟩ := by
  induction bytes generalizing out with
  | nil =>
    have hend := Code.decode_append (hcodes ⟨endSymbol, by decide⟩) rest
    rw [List.flatMap_nil, List.nil_append, Array.append_empty]
    exact (codedBlock_of_item hend rfl out).2 rfl
  | cons b bytes ih =>
    have hlt : b.toNat < 257 := Nat.lt_succ_of_lt b.toNat_lt
    have hword := Code.decode_append (hcodes ⟨b.toNat, hlt⟩)
      (bytes.flatMap (fun b ↦ fixedWord b.toNat) ++ (fixedWord endSymbol ++ rest))
    rw [List.flatMap_cons, List.append_assoc,
      (codedBlock_of_item hword (item_byte b _) out).1 b rfl, List.nil_append, ih]
    simp

theorem block_fixed (h : fixedCodes? = some codes) (out : Array UInt8) (bits : Bits) :
    block 1 out bits = codedBlock codes out bits := by
  -- an equation for `block` would compute the fixed codes
  delta block
  rw [h]
  rfl

end Block

/-- **Deflated data can be inflated**, and what follows them is found again. -/
theorem inflate_deflate_append (bytes rest : List UInt8) :
    inflate (deflate bytes ++ rest) = ⟨bytes.toArray, .ok (Bits.ofBytes rest)⟩ := by
  obtain ⟨codes, hcodes, hwords⟩ := exists_fixedCodes
  obtain ⟨filling, hpad, hfilling, hwhole⟩ := Bits.exists_pad_eq (deflateBits bytes)
  -- the bits that are written, in front of those that follow
  have hbits : Bits.ofBytes (deflate bytes ++ rest) = fixedHeader ++
      (bytes.flatMap (fun b ↦ fixedWord b.toNat) ++
        (fixedWord endSymbol ++ (filling ++ Bits.ofBytes rest))) := by
    have hlength : (Bits.pad (deflateBits bytes)).length % 8 = 0 := by
      rw [hpad, List.length_append, hwhole]
    rw [Bits.ofBytes_append, deflate, Bits.ofBytes_toBytes hlength, hpad, deflateBits]
    simp only [List.append_assoc]
  have hheader : ∀ behind, readBits 3 (fixedHeader ++ behind) = .ok (3, behind) := fun _ ↦ rfl
  have hblocks : ∀ count, blocks (count + 1) #[] (Bits.ofBytes (deflate bytes ++ rest)) =
      ⟨bytes.toArray, .ok (filling ++ Bits.ofBytes rest)⟩ := by
    intro count
    rw [hbits, blocks, hheader]
    simp only [Nat.reduceDiv, Nat.reduceMod, block_fixed hcodes, codedBlock_words hwords,
      Array.empty_append, if_true]
  obtain ⟨count, hcount⟩ : ∃ count,
      (Bits.ofBytes (deflate bytes ++ rest)).length = count + 1 := by
    rw [hbits]
    exact ⟨_, rfl⟩
  simp only [inflate, hcount, hblocks, Bits.align_append_ofBytes hfilling]

/-! ### Files -/

@[simp]
theorem length_littleEndian (width n : Nat) : (littleEndian width n).length = width := by
  induction width generalizing n with
  | zero => rfl
  | succ width ih => rw [littleEndian, List.length_cons, ih]

theorem length_trailer (bytes : List UInt8) : (trailer bytes).length = trailerLength := by
  rw [trailer, List.length_append, length_littleEndian, length_littleEndian]
  rfl

theorem skipHeader_header_append (rest : List UInt8) : skipHeader (header ++ rest) = .ok rest := by
  simp [skipHeader, header, skip, bind, Except.bind]

/-- **Reading a compressed file gives the bytes that were written.** -/
theorem decode_encode (bytes : List UInt8) : decode (encode bytes) = ⟨bytes, none⟩ := by
  have hlength : (Bits.ofBytes (trailer bytes)).length = 8 * trailerLength := by
    rw [Bits.length_ofBytes, length_trailer]
  rw [decode, encode, List.append_assoc, skipHeader_header_append]
  simp only [inflate_deflate_append, hlength, Nat.lt_irrefl, if_false]
  rw [List.take_of_length_le (Nat.le_of_eq hlength), Bits.toBytes_ofBytes, if_pos rfl]

end TemporalMonitor.Gzip

namespace TemporalMonitor

theorem ByteStream.gunzip_of_decode {bytes content : List UInt8}
    (h : Gzip.decode bytes = ⟨content, none⟩) :
    (ByteStream.mk bytes none).gunzip = ⟨content, none⟩ := by
  rw [gunzip, h]

end TemporalMonitor
