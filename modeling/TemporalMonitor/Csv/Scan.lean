import TemporalMonitor.Csv

/-!
# Scanning records

Bytes are split into records one byte at a time. The scanner remembers where it stands in a record
and the fields read so far; a byte may end a record, which is then complete. The line feed of a
carriage return and a line feed belongs to the record that follows, where it is skipped.
-/

namespace TemporalMonitor.Csv

/-- The bytes of a field. -/
abbrev Field := List UInt8

/-- Where in a record a byte stands. -/
inductive Place where
  /-- In front of a record. -/
  | recordStart
  /-- In front of a record, behind a carriage return. -/
  | afterReturn
  /-- In front of a field, behind a comma. -/
  | fieldStart
  /-- In a field, outside quotes. -/
  | unquoted
  /-- In a field, inside quotes. -/
  | quoted
  /-- Behind a quote that ends the quotes, unless another quote follows. -/
  | afterQuote
  deriving DecidableEq, Repr

/-- A record that is being read. -/
structure Scanner where
  /-- Where the next byte stands. -/
  place : Place := .recordStart
  /-- The bytes of the current field, the last one first. -/
  field : List UInt8 := []
  /-- The fields before it, the last one first. -/
  fields : List Field := []
  deriving DecidableEq, Repr

namespace Scanner

/-- The fields, when the record ends here. -/
def record (s : Scanner) : List Field := (s.field.reverse :: s.fields).reverse

/-- Adds a byte to the current field. -/
def push (s : Scanner) (place : Place) (b : UInt8) : Scanner :=
  { s with place, field := b :: s.field }

/-- A byte outside quotes, which may end the field or the record. -/
def plainByte (s : Scanner) (b : UInt8) : Scanner × Option (List Field) :=
  if b = comma then (⟨.fieldStart, [], s.field.reverse :: s.fields⟩, none)
  else if b = carriageReturn then ({ place := .afterReturn }, some s.record)
  else if b = lineFeed then ({}, some s.record)
  else (s.push .unquoted b, none)

/-- The first byte of a field. -/
def firstByte (s : Scanner) (b : UInt8) : Scanner × Option (List Field) :=
  if b = quote then ({ s with place := .quoted }, none) else s.plainByte b

/-- The next byte: the scanner behind it, and the record that it ends. -/
def step (s : Scanner) (b : UInt8) : Scanner × Option (List Field) :=
  match s.place with
  | .recordStart => if endsRecord b then ({}, none) else s.firstByte b
  | .afterReturn => if endsRecord b then ({}, none) else s.firstByte b
  | .fieldStart => s.firstByte b
  | .unquoted => s.plainByte b
  | .quoted =>
    if b = quote then ({ s with place := .afterQuote }, none) else (s.push .quoted b, none)
  | .afterQuote => if b = quote then (s.push .quoted b, none) else s.plainByte b

/-- The record that the end of the bytes ends. -/
def finish? (s : Scanner) : Option (List Field) :=
  match s.place with
  | .recordStart | .afterReturn => none
  | _ => some s.record

end Scanner

/-- A record of bytes. -/
structure RawRecord where
  /-- Where the record before it ended. -/
  start : Position
  /-- The fields. -/
  fields : List Field
  deriving DecidableEq, Repr

namespace Position

/-- The position behind a byte of a record. -/
def afterByte (p : Position) (b : UInt8) : Position :=
  { p with line := if b = lineFeed then p.line + 1 else p.line, byte := p.byte + 1 }

/-- The position behind a record. -/
def afterRecord (p : Position) : Position := { p with record := p.record + 1 }

end Position

/-- The records of bytes, where the current record started at `start` and `here` is in front of the
bytes. Whether the bytes are followed by their end, or by something that is not known, is told by
`ended`. -/
def scan (ended : Bool) (start here : Position) (s : Scanner) : List UInt8 → List RawRecord
  | [] => if ended then (s.finish?.map (RawRecord.mk start)).toList else []
  | b :: bytes =>
    match s.step b with
    | (s, none) => scan ended start (here.afterByte b) s bytes
    | (s, some fields) =>
      let next := (here.afterByte b).afterRecord
      ⟨start, fields⟩ :: scan ended next next s bytes

/-- The mark that may stand in front of a text. -/
def byteOrderMark : List UInt8 := [0xEF, 0xBB, 0xBF]

/-- The records of a stream. A record that a fault interrupts is lost. -/
def rawRecords (s : ByteStream) : List RawRecord :=
  let ended := s.fault.isNone
  if byteOrderMark.isPrefixOf s.bytes then
    scan ended {} { byte := byteOrderMark.length } {} (s.bytes.drop byteOrderMark.length)
  else scan ended {} {} {} s.bytes

end TemporalMonitor.Csv
