import TemporalMonitor.Csv.Scan

/-!
# Writing records

A field is quoted only if it holds a comma, a quote or a byte that ends a record. The first record
fixes how long all records are; a record of another length is an error, but its fields have been
written by then: all that is missing is the quote that closes the last one, and the line feed.
-/

namespace TemporalMonitor.Csv

/-- A field that has to be quoted. -/
def needsQuotes (f : Field) : Bool := f.any fun b ↦ b == comma || b == quote || endsRecord b

/-- The bytes of a quoted field, in which each quote is written twice. -/
def doubleQuotes : Field → List UInt8
  | [] => []
  | b :: f => if b = quote then quote :: quote :: doubleQuotes f else b :: doubleQuotes f

/-- A field as it is written, up to the quote that closes it. -/
def openField (f : Field) : List UInt8 :=
  if needsQuotes f then quote :: doubleQuotes f else f

/-- A field as it is written. -/
def closedField (f : Field) : List UInt8 :=
  if needsQuotes f then quote :: doubleQuotes f ++ [quote] else f

/-- The fields of a record with commas between them, up to the quote that closes the last one. -/
def openRecord : List Field → List UInt8
  | [] => []
  | [f] => openField f
  | f :: rest => closedField f ++ comma :: openRecord rest

/-- A record as it is written. -/
def closedRecord : List Field → List UInt8
  | [] => [lineFeed]
  | [f] => closedField f ++ [lineFeed]
  | f :: rest => closedField f ++ comma :: closedRecord rest

/-- Records that are being written. -/
structure Writer where
  /-- What was written, the last piece first. -/
  pieces : List (List UInt8)
  /-- The length of the first record. -/
  width : Nat
  deriving DecidableEq, Repr

namespace Writer

/-- The bytes written so far. -/
def bytes (w : Writer) : List UInt8 := w.pieces.reverse.flatten

/-- Writes the first record. -/
def ofHeader (fields : List Field) : Writer := ⟨[closedRecord fields], fields.length⟩

/-- Writes a record. -/
def write (w : Writer) (fields : List Field) : Writer × Option Error :=
  if fields.length = w.width then ({ w with pieces := closedRecord fields :: w.pieces }, none)
  else
    ({ w with pieces := openRecord fields :: w.pieces },
      some (.unequalLengths none fields.length w.width))

@[simp]
theorem bytes_ofHeader (fields : List Field) : (ofHeader fields).bytes = closedRecord fields := by
  simp [bytes, ofHeader]

/-- A record of the right length is written behind the others. -/
theorem bytes_write {w : Writer} {fields : List Field} (h : fields.length = w.width) :
    (w.write fields).1.bytes = w.bytes ++ closedRecord fields := by
  simp [bytes, write, h]

end Writer

end TemporalMonitor.Csv
