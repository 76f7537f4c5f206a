/-!
# Bits

Bytes as a list of bits, the least significant bit of each byte first, and numbers read from bits.
-/

namespace TemporalMonitor.Gzip

/-- The bits that are left to be read. -/
abbrev Bits := List Bool

namespace Bits

/-- The eight bits of a byte. -/
def ofByte (b : UInt8) : Bits :=
  (List.range 8).map fun i ↦ b.toNat.testBit i

/-- The bits of bytes. -/
def ofBytes (bytes : List UInt8) : Bits := bytes.flatMap ofByte

/-- The number written by bits, the least significant first. -/
def toNat : Bits → Nat
  | [] => 0
  | b :: bs => b.toNat + 2 * toNat bs

/-- The number written by the next `n` bits, if there are so many. -/
def read? : (n : Nat) → Bits → Option (Nat × Bits)
  | 0, bits => some (0, bits)
  | _ + 1, [] => none
  | n + 1, b :: bits =>
    match read? n bits with
    | some (v, rest) => some (b.toNat + 2 * v, rest)
    | none => none

/-- The bits from the next whole byte on, where the list ends with a byte. -/
def align (bits : Bits) : Bits := bits.drop (bits.length % 8)

/-- A number in `width` bits, the most significant one first. -/
def ofNatMsb (width n : Nat) : Bits :=
  (List.range width).reverse.map n.testBit

/-- Adds the whole bytes that bits start with behind others. -/
def pushBytes (out : Array UInt8) : Bits → Array UInt8
  | b₀ :: b₁ :: b₂ :: b₃ :: b₄ :: b₅ :: b₆ :: b₇ :: rest =>
    pushBytes (out.push (toNat [b₀, b₁, b₂, b₃, b₄, b₅, b₆, b₇]).toUInt8) rest
  | _ => out

/-- The whole bytes that bits start with. -/
def toBytes (bits : Bits) : List UInt8 := (pushBytes #[] bits).toList

/-- The bits up to the next whole byte, filled up with zeros. -/
def pad (bits : Bits) : Bits := bits ++ List.replicate ((8 - bits.length % 8) % 8) false

theorem read?_eq (n : Nat) (bits : Bits) :
    read? n bits = if n ≤ bits.length then some (toNat (bits.take n), bits.drop n) else none := by
  fun_induction read? n bits with
  | case1 => simp [toNat]
  | case2 => simp
  | case3 n b bits v rest h ih =>
    rw [ih] at h
    split at h
    · simp only [Option.some.injEq, Prod.mk.injEq] at h
      simp [toNat, *]
    · simp at h
  | case4 n b bits h ih =>
    rw [ih] at h
    split at h
    · simp at h
    · simp [*]

theorem read?_length {n v : Nat} {bits rest : Bits} (h : read? n bits = some (v, rest)) :
    rest.length + n = bits.length := by
  rw [read?_eq] at h
  split at h
  · simp only [Option.some.injEq, Prod.mk.injEq] at h
    rw [← h.2, List.length_drop]
    omega
  · simp at h

theorem toNat_ofByte (b : UInt8) : (toNat (ofByte b)).toUInt8 = b := by
  have h : ∀ n : Fin 256, (toNat (ofByte ⟨⟨n⟩⟩)).toUInt8 = ⟨⟨n⟩⟩ := by decide +kernel
  obtain ⟨⟨n⟩⟩ := b
  exact h n

theorem pushBytes_ofByte_append (out : Array UInt8) (b : UInt8) (bits : Bits) :
    pushBytes out (ofByte b ++ bits) = pushBytes (out.push b) bits := by
  have h := toNat_ofByte b
  simp only [ofByte, List.range, List.range.loop, List.map_cons, List.map_nil] at h
  simp only [ofByte, List.range, List.range.loop, List.map_cons, List.map_nil, List.cons_append,
    List.nil_append, pushBytes]
  rw [h]

theorem pushBytes_ofBytes (out : Array UInt8) (bytes : List UInt8) :
    (pushBytes out (ofBytes bytes)).toList = out.toList ++ bytes := by
  induction bytes generalizing out with
  | nil => simp [ofBytes, pushBytes]
  | cons b bytes ih =>
    rw [ofBytes, List.flatMap_cons, pushBytes_ofByte_append, ← ofBytes, ih]
    simp

/-- Bytes can be read back from their bits. -/
@[simp]
theorem toBytes_ofBytes (bytes : List UInt8) : toBytes (ofBytes bytes) = bytes := by
  simp [toBytes, pushBytes_ofBytes]

end Bits

end TemporalMonitor.Gzip
