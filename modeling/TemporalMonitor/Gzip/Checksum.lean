/-!
# Checksums

The cyclic redundancy check with 32 bits, as the remainder of a division of polynomials whose
coefficients are bits; the lowest bit is the highest coefficient.
-/

namespace TemporalMonitor.Gzip

/-- The divisor, without its leading coefficient. -/
def divisor : UInt32 := 0xEDB88320

/-- Divides by one more coefficient. -/
def shift (r : UInt32) : UInt32 :=
  if r &&& 1 = 1 then (r >>> 1) ^^^ divisor else r >>> 1

/-- The remainder after one more byte. -/
def addByte (r : UInt32) (b : UInt8) : UInt32 :=
  Nat.repeat shift 8 (r ^^^ b.toUInt32)

/-- The checksum of bytes. -/
def checksum (bytes : List UInt8) : UInt32 :=
  bytes.foldl addByte 0xFFFFFFFF ^^^ 0xFFFFFFFF

end TemporalMonitor.Gzip
