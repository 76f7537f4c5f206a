import TemporalMonitor.Gzip.Bits

/-!
# Deflating

Bytes as compressed data: one block in the fixed code, with one word for each byte. In the fixed
code a symbol has seven to nine bits, and the words of one length follow each other in the order of
their symbols.
-/

namespace TemporalMonitor.Gzip

/-- The symbol for the end of a block. -/
def endSymbol : Nat := 256

/-- The word of a symbol in the fixed code. -/
def fixedWord (symbol : Nat) : Bits :=
  if symbol < 144 then Bits.ofNatMsb 8 (0x30 + symbol)
  else if symbol < 256 then Bits.ofNatMsb 9 (0x190 + (symbol - 144))
  else if symbol < 280 then Bits.ofNatMsb 7 (symbol - 256)
  else Bits.ofNatMsb 8 (0xC0 + (symbol - 280))

/-- The bits in front of the last block of data, if it is in the fixed code. -/
def fixedHeader : Bits := [true, true, false]

/-- The bits of compressed data. -/
def deflateBits (bytes : List UInt8) : Bits :=
  fixedHeader ++ bytes.flatMap (fun b ↦ fixedWord b.toNat) ++ fixedWord endSymbol

/-- Compressed data. -/
def deflate (bytes : List UInt8) : List UInt8 := (deflateBits bytes).pad.toBytes

end TemporalMonitor.Gzip
