/-!
# UTF-8

Texts as bytes. `encode` writes every character of a text in UTF-8, `decode` reads bytes back and
says where the first byte stands that does not belong to a character.
-/

namespace TemporalMonitor.Text.Utf8

/-- The bytes of characters. -/
def encode (cs : List Char) : List UInt8 := cs.flatMap String.utf8EncodeChar

/-- The first character of some bytes, if they start with one. -/
def head? (bytes : List UInt8) : Option Char :=
  (bytes.take 4).toByteArray.utf8DecodeChar? 0

/-- Reads characters to the end of the bytes; `start` is the offset of the first byte. A failure is
the offset of the first byte that does not belong to a character. -/
def decodeFrom (start : Nat) (bytes : List UInt8) : Except Nat (List Char) :=
  match bytes with
  | [] => .ok []
  | b :: bs =>
    match head? (b :: bs) with
    | none => .error start
    | some c =>
      match decodeFrom (start + c.utf8Size) (bs.drop (c.utf8Size - 1)) with
      | .ok cs => .ok (c :: cs)
      | .error n => .error n
termination_by bytes.length
decreasing_by
  simp only [List.length_drop, List.length_cons]
  omega

/-- The characters written by some bytes, or the offset of the first byte that does not belong to
one. -/
def decode (bytes : List UInt8) : Except Nat (List Char) := decodeFrom 0 bytes

/-- The bytes of a text. -/
def ofString (s : String) : List UInt8 := encode s.toList

/-- The text written by some bytes, if they are valid. -/
def toString? (bytes : List UInt8) : Option String :=
  String.fromUTF8? bytes.toByteArray

end TemporalMonitor.Text.Utf8
