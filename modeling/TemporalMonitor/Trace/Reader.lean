import TemporalMonitor.Csv.Sheet
import TemporalMonitor.Signature
import TemporalMonitor.Source

/-!
# Reading traces

A trace is a sheet whose columns are variables and whose rows are states. A column goes to the
position of its variable in a signature; columns of other variables are ignored, and variables
without a column are not observed. A cell is empty, if its variable is not observed, or a truth
value: `1` or `true`, `0` or `false`, in any case.

A row that cannot be read is reported and left behind, and so is a row with a cell that is no truth
value. Only rows that are states count as steps.
-/

namespace TemporalMonitor

/-- Why a trace cannot be read. -/
inductive TraceError where
  /-- The file cannot be opened. -/
  | unopened (path : Path) (reason : FileError)
  /-- The file does not hold comma-separated values. -/
  | malformed (reason : Csv.Error)
  /-- A cell holds no truth value. -/
  | invalidValue (step : Nat) (name value : String)
  deriving DecidableEq, Repr

namespace TraceError

/-- What failed. -/
def message : TraceError → String
  | unopened path _ => "failed to open trace file '" ++ path ++ "'"
  | malformed _ => "malformed CSV trace"
  | invalidValue step name value =>
    "invalid value '" ++ value ++ "' for variable '" ++ name ++ "' at step " ++ step.repr

/-- Why it failed. -/
def causes : TraceError → List String
  | unopened _ reason => [reason.message]
  | malformed reason => [reason.message]
  | invalidValue _ _ _ => []

end TraceError

/-- What a cell says about its variable: nothing, or a truth value; other cells are invalid. -/
def cellValue? (cell : String) : Option (Option Bool) :=
  if cell = "" then some none
  else if cell = "1" || cell.toLower = "true" then some (some true)
  else if cell = "0" || cell.toLower = "false" then some (some false)
  else none

/-- A column of a trace. -/
structure Column where
  /-- The name of its variable. -/
  name : String
  /-- The position of the variable. -/
  index : Option Nat
  deriving DecidableEq, Repr

/-- A trace from the next row on. -/
structure TraceReader where
  /-- The number of variables. -/
  width : Nat
  /-- The columns. -/
  columns : List Column
  /-- The rows that are left. -/
  rows : List (Except Csv.Error (List String))
  /-- The number of states read, which is at most the number of bytes that they were read from. -/
  step : Nat := 0

/-- Puts cells into a state, from left to right, until one of them is invalid: the state so far, and
the name and the content of that cell. -/
def fillState (s : State) : List (Column × String) → State × Option (String × String)
  | [] => (s, none)
  | (column, cell) :: rest =>
    match column.index with
    | none => fillState s rest
    | some i =>
      match cellValue? cell with
      | none => (s, some (column.name, cell))
      | some v => fillState (s.set i v) rest

namespace TraceReader

/-- The columns with the given names. -/
def columnsOf (signature : Signature) (header : List String) : List Column :=
  header.map fun name ↦ ⟨name, signature.idxOf? name⟩

/-- The reader of a sheet. -/
def ofSheet (signature : Signature) (sheet : Csv.Sheet) : TraceReader where
  width := signature.length
  columns := columnsOf signature sheet.header
  rows := sheet.rows

/-- The records of matching the columns with the signature. -/
def headerLog (signature : Signature) (header : List String) : Log :=
  (header.filter (!signature.contains ·)).map
      (fun name ↦ .plain .debug ("column '" ++ name ++ "' not used by any property")) ++
    (signature.filter (!header.contains ·)).map
      fun name ↦ .plain .warn ("variable '" ++ name ++ "' not in trace, it will be unobserved")

/-- The reader of a stream, and the records of opening it. -/
def ofStream (signature : Signature) (s : ByteStream) : Except TraceError TraceReader × Log :=
  match Csv.Sheet.ofStream s with
  | .error e => (.error (.malformed e), [])
  | .ok sheet => (.ok (ofSheet signature sheet), headerLog signature sheet.header)

/-- What one call gives. -/
structure Reading where
  /-- Whether there was a state, or why the row could not be read. -/
  more : Except TraceError Bool
  /-- The content of the buffer afterwards. -/
  buffer : State
  /-- The reader afterwards. -/
  reader : TraceReader

/-- Reads the next row into a buffer. The buffer keeps its content at the end of the trace and when
the row cannot be read; at an invalid cell it holds the cells to the left of it. -/
def next (r : TraceReader) (buffer : State) : Reading :=
  match r.rows with
  | [] => ⟨.ok false, buffer, r⟩
  | .error e :: rows => ⟨.error (.malformed e), buffer, { r with rows }⟩
  | .ok cells :: rows =>
    match fillState (List.replicate r.width none) (r.columns.zip cells) with
    | (s, some (name, value)) => ⟨.error (.invalidValue r.step name value), s, { r with rows }⟩
    | (s, none) => ⟨.ok true, s, { r with rows, step := r.step + 1 }⟩

/-- The states up to the first failure, and the failure, where `step` states were read before. -/
def deliver (width : Nat) (columns : List Column) :
    (step : Nat) → List (Except Csv.Error (List String)) → List State × Option TraceError
  | _, [] => ([], none)
  | _, .error e :: _ => ([], some (.malformed e))
  | step, .ok cells :: rows =>
    match fillState (List.replicate width none) (columns.zip cells) with
    | (_, some (name, value)) => ([], some (.invalidValue step name value))
    | (s, none) =>
      let (states, failure) := deliver width columns (step + 1) rows
      (s :: states, failure)

/-- The states that a reader delivers, up to its first failure. -/
def source (r : TraceReader) (opening : Log) : Source TraceError :=
  let (states, failure) := deliver r.width r.columns r.step r.rows
  ⟨opening, states, failure⟩

end TraceReader

end TemporalMonitor
