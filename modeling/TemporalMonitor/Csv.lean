import TemporalMonitor.ByteStream

/-!
# Comma-separated values

The dialect in which traces are read and written, and what can go wrong with it.

A record is a line of fields with commas between them. A field that starts with a quote is quoted:
it may hold commas and line ends, and a quote inside it is written twice. A quote that does not
start a field is a character like any other, and so is all that stands behind a closing quote. A
quoted field that is never closed goes on to the end. A record ends at a line feed, at a carriage
return, or at both together; empty lines are skipped. All records are as long as the first one.
-/

namespace TemporalMonitor.Csv

/-- The byte of a comma. -/
def comma : UInt8 := 0x2C

/-- The byte of a quote. -/
def quote : UInt8 := 0x22

/-- The byte of a line feed. -/
def lineFeed : UInt8 := 0x0A

/-- The byte of a carriage return. -/
def carriageReturn : UInt8 := 0x0D

/-- A byte that ends a record. -/
def endsRecord (b : UInt8) : Bool := b == lineFeed || b == carriageReturn

/-- A place between two records. -/
structure Position where
  /-- The number of records before. -/
  record : Nat := 0
  /-- The number of line feeds before, plus one. -/
  line : Nat := 1
  /-- The number of bytes before. -/
  byte : Nat := 0
  deriving DecidableEq, Repr

/-- What is wrong with comma-separated values. -/
inductive Error where
  /-- The bytes cannot be read. -/
  | unreadable (reason : ReadError)
  /-- A record is not as long as the first one. -/
  | unequalLengths (start : Option Position) (length expected : Nat)
  /-- The bytes of a field are not a text, from the byte with the given index on. -/
  | notText (start : Position) (field index : Nat)
  deriving DecidableEq, Repr

namespace Error

/-- What an error says about lengths. -/
def lengthsMessage (length expected : Nat) : String :=
  "found record with " ++ length.repr ++ " fields, but the previous record has " ++
    expected.repr ++ " fields"

/-- The text of an error. -/
def message : Error → String
  | unreadable reason => reason.message
  | unequalLengths none length expected => "CSV error: " ++ lengthsMessage length expected
  | unequalLengths (some p) length expected =>
    "CSV error: record " ++ p.record.repr ++ " (line: " ++ p.line.repr ++ ", byte: " ++
      p.byte.repr ++ "): " ++ lengthsMessage length expected
  | notText p field index =>
    "CSV parse error: record " ++ p.record.repr ++ " (line " ++ p.line.repr ++ ", field: " ++
      field.repr ++ ", byte: " ++ p.byte.repr ++ "): invalid utf-8: invalid UTF-8 in field " ++
      field.repr ++ " near byte index " ++ index.repr

end Error

end TemporalMonitor.Csv
