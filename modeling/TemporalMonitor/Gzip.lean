import TemporalMonitor.Gzip.Checksum
import TemporalMonitor.Gzip.Deflate
import TemporalMonitor.Gzip.Inflate

/-!
# Compressed files

A compressed file has a header, compressed data, and a trailer with the checksum of the bytes and
their number modulo `2 ^ 32`. What follows the trailer is not read.

Reading delivers bytes until it meets a fault. A file that is cut short delivers the bytes in front
of the cut, and one whose trailer does not fit delivers all bytes.

Where the data are corrupt, some of the bytes in front of the fault are lost. A file is read in
pieces, and its bytes are decoded into a window. They are handed on when a piece has been used up,
and when a byte has to be written to a window that is full; a fault takes away those that were not
handed on before.
-/

namespace TemporalMonitor.Gzip

/-- Why a compressed file cannot be read. -/
inductive Fault where
  | badHeader
  /-- A text in the header is too long. -/
  | longText
  /-- The file ends in its header or in its trailer. -/
  | unexpectedEnd
  /-- The file ends in its compressed data. -/
  | incompleteData
  | corruptData
  | badTrailer
  deriving DecidableEq, Repr

/-- The text of a fault. -/
def Fault.message : Fault → String
  | badHeader => "invalid gzip header"
  | longText => "gzip header field too long"
  | unexpectedEnd => "unexpected end of file"
  | incompleteData => "incomplete deflate stream"
  | corruptData => "corrupt deflate stream"
  | badTrailer => "corrupt gzip stream does not have a matching checksum"

/-- What a compressed file delivers. -/
structure Content where
  /-- The bytes delivered. -/
  bytes : List UInt8
  /-- The fault met after them. -/
  fault : Option Fault
  deriving DecidableEq, Repr

/-! ### Numbers of several bytes -/

/-- The lowest `width` bytes of a number, the lowest first. -/
def littleEndian : (width : Nat) → Nat → List UInt8
  | 0, _ => []
  | width + 1, n => n.toUInt8 :: littleEndian width (n / 256)

/-- The number written by bytes, the lowest first. -/
def ofLittleEndian : List UInt8 → Nat
  | [] => 0
  | b :: bytes => b.toNat + 256 * ofLittleEndian bytes

/-! ### Headers -/

/-- The bytes behind `n` others. -/
def skip (n : Nat) (bytes : List UInt8) : Except Fault (List UInt8) :=
  if n ≤ bytes.length then .ok (bytes.drop n) else .error .unexpectedEnd

/-- The length of the longest text in a header. -/
def maxText : Nat := 0xFFFF

/-- The bytes behind a text that ends with a zero. -/
def skipText (bytes : List UInt8) : Except Fault (List UInt8) :=
  let length := (bytes.takeWhile (· ≠ 0)).length
  if maxText < length then .error .longText else skip (length + 1) bytes

/-- The bytes behind a field that starts with its length. -/
def skipField (bytes : List UInt8) : Except Fault (List UInt8) := do
  let rest ← skip 2 bytes
  skip (ofLittleEndian (bytes.take 2)) rest

/-- The bytes behind the check of the header, which starts with `header`. -/
def skipCheck (header bytes : List UInt8) : Except Fault (List UInt8) := do
  let rest ← skip 2 bytes
  let read := header.take (header.length - bytes.length)
  if (checksum read).toNat % 0x10000 = ofLittleEndian (bytes.take 2) then .ok rest
  else .error .badTrailer

/-- The bytes behind the header. The fourth byte says which parts follow the first ten bytes. -/
def skipHeader (bytes : List UInt8) : Except Fault (List UInt8) := do
  let rest ← skip 10 bytes
  match bytes with
  | 0x1F :: 0x8B :: 8 :: flags :: _ =>
    let has (i : Nat) : Bool := flags.toNat.testBit i
    if 0x20 ≤ flags then .error .badHeader
    else
      let rest ← if has 2 then skipField rest else .ok rest
      let rest ← if has 3 then skipText rest else .ok rest
      let rest ← if has 4 then skipText rest else .ok rest
      if has 1 then skipCheck bytes rest else .ok rest
  | _ => .error .badHeader

/-! ### Reading and writing -/

/-- The number of bytes of a trailer. -/
def trailerLength : Nat := 8

/-- The trailer for some bytes. -/
def trailer (bytes : List UInt8) : List UInt8 :=
  littleEndian 4 (checksum bytes).toNat ++ littleEndian 4 bytes.length

/-- The size of the window that bytes are decoded into. -/
def windowSize : Nat := 0x8000

/-- The size of the pieces in which a file is read. -/
def pieceSize : Nat := 0x8000

/-- How many of the first `n` bytes are in windows that were full when a later one of them was
written. -/
def passedWindows (n : Nat) : Nat := (n - 1) / windowSize * windowSize

/-- How many bytes are decoded before more data than the given ones are needed; none, if the data
are corrupt. -/
def decodable (data : List UInt8) : Nat :=
  match inflate data with
  | ⟨out, .error .truncated⟩ => out.size
  | _ => 0

/-- How many bytes are decoded from the pieces of a file in front of a fault, where the file starts
with a header of the given length. -/
def decodableInPieces (file : List UInt8) (headerLength : Nat) : Nat :=
  (List.range (file.length / pieceSize)).foldl
    (fun most i ↦ Nat.max most (decodable ((file.take ((i + 1) * pieceSize)).drop headerLength))) 0

/-- How many of the `n` bytes in front of a fault are handed on, where `data` stand behind the
header of the file. -/
def handedOn (file data : List UInt8) (n : Nat) : Nat :=
  Nat.max (passedWindows n) (decodableInPieces file (file.length - data.length))

/-- Reads a compressed file. -/
def decode (file : List UInt8) : Content :=
  match skipHeader file with
  | .error e => ⟨[], some e⟩
  | .ok data =>
    match inflate data with
    | ⟨out, .error .corrupt⟩ =>
      ⟨out.toList.take (handedOn file data out.size), some .corruptData⟩
    | ⟨out, .error .truncated⟩ => ⟨out.toList, some .incompleteData⟩
    | ⟨out, .ok rest⟩ =>
      let bytes := out.toList
      if rest.length < 8 * trailerLength then ⟨bytes, some .unexpectedEnd⟩
      else if Bits.toBytes (rest.take (8 * trailerLength)) = trailer bytes then ⟨bytes, none⟩
      else ⟨bytes, some .badTrailer⟩

/-- The header of a file without a name and without a time. -/
def header : List UInt8 := [0x1F, 0x8B, 8, 0, 0, 0, 0, 0, 0, 0xFF]

/-- Writes a compressed file. -/
def encode (bytes : List UInt8) : List UInt8 :=
  header ++ deflate bytes ++ trailer bytes

end TemporalMonitor.Gzip
