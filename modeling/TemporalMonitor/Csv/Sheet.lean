import TemporalMonitor.Csv.Scan
import TemporalMonitor.Text.Blank
import TemporalMonitor.Text.Utf8

/-!
# Sheets

A sheet is what a stream of comma-separated values delivers: the fields of its first record, which
name the columns, and a row for each record behind it. Fields are trimmed, also those in quotes.

A record of another length than the first one, or with bytes that are not a text, is a row that
cannot be read; the rows behind it are not affected. A fault of the stream is the last row.
-/

namespace TemporalMonitor.Csv

/-- The texts of fields, where the first one has the index `field`. -/
def texts (start : Position) : (field : Nat) → List Field → Except Error (List String)
  | _, [] => .ok []
  | field, bytes :: rest =>
    match Text.Utf8.decode bytes with
    | .error index => .error (.notText start field index)
    | .ok cs => (texts start (field + 1) rest).map (String.ofList cs :: ·)

/-- A byte that stands for a blank at the end of a field: a space, a tab, a form feed, or an end of
line. -/
def isBlankByte (b : UInt8) : Bool := b = 0x20 || b = 0x09 || b = 0x0A || b = 0x0C || b = 0x0D

/-- The bytes between the blanks at both ends. -/
def trimBytes (bytes : Field) : Field :=
  ((bytes.dropWhile isBlankByte).reverse.dropWhile isBlankByte).reverse

namespace RawRecord

/-- The names of columns that a record gives. -/
def names (r : RawRecord) : Except Error (List String) :=
  (texts r.start 0 r.fields).map (·.map Text.trim)

/-- The row of a record, which has to have the given length. A fault in the bytes of a field is
counted from the first byte that is not a blank. -/
def row (width : Nat) (r : RawRecord) : Except Error (List String) :=
  if r.fields.length = width then
    (texts r.start 0 (r.fields.map trimBytes)).map (·.map Text.trim)
  else .error (.unequalLengths (some r.start) r.fields.length width)

end RawRecord

/-- The content of a stream of comma-separated values. -/
structure Sheet where
  /-- The names of the columns. -/
  header : List String
  /-- The rows, in order. -/
  rows : List (Except Error (List String))

/-- The content of a stream, if its first record can be read. An empty stream has no columns and no
rows. -/
def Sheet.ofStream (s : ByteStream) : Except Error Sheet :=
  let fault := s.fault.map Error.unreadable
  match rawRecords s, fault with
  | [], some e => .error e
  | [], none => .ok ⟨[], []⟩
  | first :: rest, fault =>
    first.names.map fun header ↦
      ⟨header, rest.map (·.row first.fields.length) ++ (fault.map .error).toList⟩

end TemporalMonitor.Csv
