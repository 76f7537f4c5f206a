import TemporalMonitor.Gzip.Huffman

/-!
# Inflating

Compressed data are a row of blocks, each of which is stored as it is, or written in a code that is
fixed or described in front of it. The words of a code stand for bytes, for the end of the block, or
for a length, which a distance follows: so many bytes are repeated from so far back, where zeros
stand in front of the first byte.

Data that end too early still give the bytes in front of their end.
-/

namespace TemporalMonitor.Gzip

/-- The bytes written so far, and how reading goes on. -/
structure Progress (α : Type) where
  /-- The bytes written so far. -/
  out : Array UInt8
  /-- What is to be done next, or why reading stops. -/
  next : Except Stop α

/-- The number written by the next `n` bits. -/
def readBits (n : Nat) (bits : Bits) : Except Stop (Nat × Bits) :=
  match bits.read? n with
  | some r => .ok r
  | none => .error .truncated

theorem readBits_length {n v : Nat} {bits rest : Bits} (h : readBits n bits = .ok (v, rest)) :
    rest.length ≤ bits.length := by
  unfold readBits at h
  split at h
  · rename_i heq
    simp only [Except.ok.injEq] at h
    have := Bits.read?_length (h ▸ heq)
    omega
  · simp at h

/-! ### Lengths and distances -/

/-- The smallest length of each length symbol, from 257 on, and the number of bits that add to
it. -/
def lengthTable : List (Nat × Nat) :=
  [(3, 0), (4, 0), (5, 0), (6, 0), (7, 0), (8, 0), (9, 0), (10, 0), (11, 1), (13, 1), (15, 1),
   (17, 1), (19, 2), (23, 2), (27, 2), (31, 2), (35, 3), (43, 3), (51, 3), (59, 3), (67, 4),
   (83, 4), (99, 4), (115, 4), (131, 5), (163, 5), (195, 5), (227, 5), (258, 0)]

/-- The smallest distance of each distance symbol, and the number of bits that add to it. -/
def distanceTable : List (Nat × Nat) :=
  [(1, 0), (2, 0), (3, 0), (4, 0), (5, 1), (7, 1), (9, 2), (13, 2), (17, 3), (25, 3), (33, 4),
   (49, 4), (65, 5), (97, 5), (129, 6), (193, 6), (257, 7), (385, 7), (513, 8), (769, 8), (1025, 9),
   (1537, 9), (2049, 10), (3073, 10), (4097, 11), (6145, 11), (8193, 12), (12289, 12), (16385, 13),
   (24577, 13)]

/-- Reads the bits that add to an entry of a table. -/
def entry (table : List (Nat × Nat)) (i : Nat) (bits : Bits) : Except Stop (Nat × Bits) :=
  match table[i]? with
  | none => .error .corrupt
  | some (base, extra) =>
    match readBits extra bits with
    | .error e => .error e
    | .ok (n, bits) => .ok (base + n, bits)

theorem entry_length {table : List (Nat × Nat)} {i v : Nat} {bits rest : Bits}
    (h : entry table i bits = .ok (v, rest)) : rest.length ≤ bits.length := by
  unfold entry at h
  split at h
  · simp at h
  · split at h
    · simp at h
    · rename_i heq
      simp only [Except.ok.injEq, Prod.mk.injEq] at h
      exact h.2 ▸ readBits_length heq

/-- The byte that stands `distance` bytes back. In front of the first byte there are zeros. -/
def byteBack (out : Array UInt8) (distance : Nat) : UInt8 :=
  if distance ≤ out.size then out.getD (out.size - distance) 0 else 0

/-- Repeats `n` bytes from `distance` bytes back, one after the other. -/
def repeatBytes (distance : Nat) : Nat → Array UInt8 → Array UInt8
  | 0, out => out
  | n + 1, out => repeatBytes distance n (out.push (byteBack out distance))

/-! ### Blocks -/

/-- The codes of a block: for bytes and lengths, and for distances. -/
structure BlockCodes where
  /-- The code for bytes, the end of the block, and lengths. -/
  literals : Code
  /-- The code for distances. -/
  distances : Code

/-- What a word of the first code stands for. -/
inductive Item where
  | byte (b : UInt8)
  | endOfBlock
  | copy (length distance : Nat)

/-- Reads the rest of an item that starts with the given symbol. -/
def item (codes : BlockCodes) (symbol : Nat) (bits : Bits) : Except Stop (Item × Bits) :=
  if symbol < 256 then .ok (.byte symbol.toUInt8, bits)
  else if symbol = 256 then .ok (.endOfBlock, bits)
  else do
    let (length, bits) ← entry lengthTable (symbol - 257) bits
    let (symbol, bits) ← codes.distances.decode bits
    let (distance, bits) ← entry distanceTable symbol bits
    .ok (.copy length distance, bits)

theorem item_length {codes : BlockCodes} {symbol : Nat} {bits rest : Bits} {i : Item}
    (h : item codes symbol bits = .ok (i, rest)) : rest.length ≤ bits.length := by
  unfold item at h
  split at h
  · simp only [Except.ok.injEq, Prod.mk.injEq] at h
    simp [h.2]
  · split at h
    · simp only [Except.ok.injEq, Prod.mk.injEq] at h
      simp [h.2]
    · cases h₁ : entry lengthTable (symbol - 257) bits with
      | error e => simp [h₁, bind, Except.bind] at h
      | ok p₁ =>
        cases h₂ : codes.distances.decode p₁.2 with
        | error e => simp [h₁, h₂, bind, Except.bind] at h
        | ok p₂ =>
          cases h₃ : entry distanceTable p₂.1 p₂.2 with
          | error e => simp [h₁, h₂, h₃, bind, Except.bind] at h
          | ok p₃ =>
            have l₁ := entry_length h₁
            have l₂ := Code.decode_length h₂
            have l₃ := entry_length h₃
            simp only [h₁, h₂, h₃, bind, Except.bind, Except.ok.injEq, Prod.mk.injEq] at h
            rw [← h.2]
            omega

/-- Reads a block that is written in a code, to its end. -/
def codedBlock (codes : BlockCodes) (out : Array UInt8) (bits : Bits) : Progress Bits :=
  match h₁ : codes.literals.decode bits with
  | .error e => ⟨out, .error e⟩
  | .ok (symbol, bits₁) =>
    match h₂ : item codes symbol bits₁ with
    | .error e => ⟨out, .error e⟩
    | .ok (i, bits₂) =>
      have : bits₂.length < bits.length :=
        Nat.lt_of_le_of_lt (item_length h₂) (Code.decode_length h₁)
      match i with
      | .endOfBlock => ⟨out, .ok bits₂⟩
      | .byte b => codedBlock codes (out.push b) bits₂
      | .copy length distance => codedBlock codes (repeatBytes distance length out) bits₂
termination_by bits.length

/-- Reads `n` bytes that are stored as they are. -/
def storedBytes : (n : Nat) → Array UInt8 → Bits → Progress Bits
  | 0, out, bits => ⟨out, .ok bits⟩
  | n + 1, out, b₀ :: b₁ :: b₂ :: b₃ :: b₄ :: b₅ :: b₆ :: b₇ :: bits =>
    storedBytes n (out.push (Bits.toNat [b₀, b₁, b₂, b₃, b₄, b₅, b₆, b₇]).toUInt8) bits
  | _ + 1, out, _ => ⟨out, .error .truncated⟩

/-- Reads a block that is stored as it is. -/
def storedBlock (out : Array UInt8) (bits : Bits) : Progress Bits :=
  match readBits 16 bits.align with
  | .error e => ⟨out, .error e⟩
  | .ok (n, bits) =>
    match readBits 16 bits with
    | .error e => ⟨out, .error e⟩
    | .ok (complement, bits) =>
      if n + complement ≠ 0xFFFF then ⟨out, .error .corrupt⟩ else storedBytes n out bits

/-! ### Codes -/

/-- The codes of a block that describes none. -/
def fixedCodes? : Option BlockCodes := do
  let literals ← Code.ofLengths? <|
    List.replicate 144 8 ++ List.replicate 112 9 ++ List.replicate 24 7 ++ List.replicate 8 8
  let distances ← Code.ofLengths? (List.replicate 32 5)
  return ⟨literals, distances⟩

/-- The order in which the lengths of the words for lengths are given. -/
def lengthOrder : List Nat := [16, 17, 18, 0, 8, 7, 9, 6, 10, 5, 11, 4, 12, 3, 13, 2, 14, 1, 15]

/-- Reads `n` numbers of `width` bits. -/
def readNumbers (width : Nat) : Nat → Bits → Except Stop (List Nat × Bits)
  | 0, bits => .ok ([], bits)
  | n + 1, bits => do
    let (v, bits) ← readBits width bits
    let (vs, bits) ← readNumbers width n bits
    .ok (v :: vs, bits)

/-- The lengths that a symbol for lengths stands for, after those that were read before. -/
def lengthRun (before : Array Nat) (symbol : Nat) (bits : Bits) :
    Except Stop (List Nat × Bits) :=
  if symbol < 16 then .ok ([symbol], bits)
  else if symbol = 16 then
    match before.back? with
    | none => .error .corrupt
    | some n => do
      let (k, bits) ← readBits 2 bits
      .ok (List.replicate (k + 3) n, bits)
  else if symbol = 17 then do
    let (k, bits) ← readBits 3 bits
    .ok (List.replicate (k + 3) 0, bits)
  else do
    let (k, bits) ← readBits 7 bits
    .ok (List.replicate (k + 11) 0, bits)

/-- Reads word lengths until there are `total` of them. Each symbol gives one length at least, so
`steps` of them are enough if `total` is not more. -/
def readLengths (code : Code) (total : Nat) :
    (steps : Nat) → Array Nat → Bits → Except Stop (List Nat × Bits)
  | 0, before, bits =>
    if before.size = total then .ok (before.toList, bits) else .error .corrupt
  | steps + 1, before, bits =>
    if before.size < total then do
      let (symbol, bits) ← code.decode bits
      let (run, bits) ← lengthRun before symbol bits
      readLengths code total steps (before ++ run.toArray) bits
    else if before.size = total then .ok (before.toList, bits)
    else .error .corrupt

/-- The code, which has to be one. -/
def needCode : Option Code → Except Stop Code
  | some c => .ok c
  | none => .error .corrupt

/-- The greatest number of words for bytes and lengths that a description may give. -/
def maxLiterals : Nat := 286

/-- The greatest number of words for distances that a description may give. -/
def maxDistances : Nat := 30

/-- Reads the description of the codes of a block. -/
def dynamicCodes (bits : Bits) : Except Stop (BlockCodes × Bits) := do
  let (n, bits) ← readBits 5 bits
  let literals := n + 257
  let (n, bits) ← readBits 5 bits
  let distances := n + 1
  let (given, bits) ← readBits 4 bits
  if maxLiterals < literals || maxDistances < distances then .error .corrupt
  else
    let (widths, bits) ← readNumbers 3 (given + 4) bits
    let lengthCode ← needCode <| Code.ofCompleteLengths? <|
      (List.range 19).map fun i ↦ widths.getD (lengthOrder.idxOf i) 0
    let total := literals + distances
    let (lengths, bits) ← readLengths lengthCode total total #[] bits
    let literalCode ← needCode (Code.ofLengths? (lengths.take literals))
    let distanceCode ← needCode (Code.ofLengths? (lengths.drop literals))
    .ok (⟨literalCode, distanceCode⟩, bits)

/-- Reads a block of the given kind. -/
def block (kind : Nat) (out : Array UInt8) (bits : Bits) : Progress Bits :=
  match kind with
  | 0 => storedBlock out bits
  | 1 =>
    match fixedCodes? with
    | some codes => codedBlock codes out bits
    | none => ⟨out, .error .corrupt⟩
  | 2 =>
    match dynamicCodes bits with
    | .ok (codes, bits) => codedBlock codes out bits
    | .error e => ⟨out, .error e⟩
  | _ => ⟨out, .error .corrupt⟩

/-- Reads blocks up to the last one. A block has bits, so `count` of them are enough if there are
not more bits. -/
def blocks : (count : Nat) → Array UInt8 → Bits → Progress Bits
  | 0, out, _ => ⟨out, .error .truncated⟩
  | count + 1, out, bits =>
    match readBits 3 bits with
    | .error e => ⟨out, .error e⟩
    | .ok (header, bits) =>
      match block (header / 2) out bits with
      | ⟨out, .error e⟩ => ⟨out, .error e⟩
      | ⟨out, .ok bits⟩ => if header % 2 = 1 then ⟨out, .ok bits⟩ else blocks count out bits

/-- Inflates compressed data: the bytes, and what follows the data from the next whole byte on. -/
def inflate (bytes : List UInt8) : Progress Bits :=
  let bits := Bits.ofBytes bytes
  match blocks bits.length #[] bits with
  | ⟨out, .error e⟩ => ⟨out, .error e⟩
  | ⟨out, .ok bits⟩ => ⟨out, .ok bits.align⟩

end TemporalMonitor.Gzip
