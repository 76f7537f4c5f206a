import TemporalMonitor.Csv.Writer
import TemporalMonitor.Observer
import TemporalMonitor.Properties.Build
import TemporalMonitor.Text.Utf8

/-!
# Annotated traces

A trace printer observes a run and writes an annotated trace: a compressed sheet with a row for each
state that was judged, which holds the step, the state, and what has become of each guarantee. When
the run has ended the file is moved to the directory for its outcome.

The printer works at a desk, which is the file tree and the file that is open. The file appears when
the run starts, and gets its content when it is closed. Failures are recorded in the log and do not
disturb the run: without an open file nothing is written and nothing is moved.
-/

namespace TemporalMonitor

/-- The files, and the file that is being written. -/
structure Desk where
  /-- The files. -/
  tree : FileTree
  /-- The records of the open file. -/
  writer : Option Csv.Writer := none

/-- Where an annotated trace is written, and the names that appear in it. -/
structure TracePrinter where
  /-- The output directory. -/
  dir : Path
  /-- The name of the trace. -/
  name : String
  /-- The names of the variables and of the guarantees. -/
  catalogue : Catalogue

/-- A position without a name. -/
structure MissingName where
  /-- The number of names. -/
  length : Nat
  /-- The position. -/
  index : Nat
  deriving DecidableEq, Repr

/-- The text of a missing name. -/
def MissingName.message (m : MissingName) : String :=
  "index out of bounds: the len is " ++ m.length.repr ++ " but the index is " ++ m.index.repr

/-- The name at a position. -/
def Signature.name (s : Signature) (i : Nat) : Except MissingName String :=
  match s.name? i with
  | some name => .ok name
  | none => .error ⟨s.length, i⟩

/-- What has become of a guarantee, in the names of its variables. -/
def Progression.named (s : Signature) : Progression Nat → Except MissingName (Progression String)
  | .verdict b => .ok (.verdict b)
  | .residual f => (f.mapM s.name).map .residual

/-- A progression as it appears in an annotated trace. -/
def Progression.cell : Progression String → String
  | .verdict b => boolText b
  | .residual f => f.render

/-- An observation as it appears in an annotated trace. -/
def observationCell : Option Bool → String
  | some b => boolText b
  | none => ""

/-- The directory for an outcome. -/
def Outcome.folder : Outcome → String
  | .verified gs => if gs.all (·) then "success" else "failure"
  | .incomplete => "incomplete"

namespace Desk

/-- Closes the open file, which is at the given path. -/
def close (d : Desk) (path : Path) : Desk :=
  match d.writer with
  | none => d
  | some w =>
    match d.tree.writeFile path (Gzip.encode w.bytes) with
    | .ok tree => ⟨tree, none⟩
    | .error _ => ⟨d.tree, none⟩

end Desk

namespace TracePrinter

/-- The name of the file. -/
def fileName (p : TracePrinter) : String := p.name ++ ".csv.gz"

/-- The path of the file during the run. -/
def path (p : TracePrinter) : Path := p.dir.join p.fileName

/-- The first record of an annotated trace. -/
def header (p : TracePrinter) : List String :=
  "step" :: p.catalogue.signature ++ p.catalogue.monitored

/-- The record of a step. -/
def row (p : TracePrinter) (step : Nat) (s : State) (o : Oracle) :
    Except MissingName (List String) := do
  let guarantees ← o.guarantees.mapM (·.named p.catalogue.signature)
  return step.repr :: s.map observationCell ++ guarantees.map (·.cell)

/-- The bytes of fields. -/
def fields (cells : List String) : List Csv.Field := cells.map Text.Utf8.ofString

/-- The run is about to start: the file is made, and its first record written. -/
def init (p : TracePrinter) (d : Desk) : Log × Desk :=
  match d.tree.writeFile p.path [] with
  | .error e =>
    ([.plain .error ("failed to create trace file '" ++ p.path ++ "': " ++ e.message)], d)
  | .ok tree => ([], ⟨tree, some (.ofHeader (fields p.header))⟩)

/-- A state was judged, and the oracle is `o` now. A record that cannot be written is the last
one. -/
def trace (p : TracePrinter) (step : Nat) (s : State) (o : Oracle) (d : Desk) :
    Except MissingName (Log × Desk) :=
  match d.writer with
  | none => .ok ([], d)
  | some w => (p.row step s o).map fun cells ↦
    match w.write (fields cells) with
    | (w, none) => ([], { d with writer := some w })
    | (w, some e) =>
      ([.plain .error ("failed to write trace file '" ++ p.path ++ "': " ++ e.message)],
        { d with writer := some w }.close p.path)

/-- The run has ended: the file is closed and moved to the directory for the outcome. -/
def finalize (p : TracePrinter) (outcome : Outcome) (d : Desk) : Log × Desk :=
  match d.writer with
  | none => ([], d)
  | some _ =>
    let d := d.close p.path
    let folder := p.dir.join outcome.folder
    let failed (e : FileError) : Log :=
      [.plain .error ("failed to move trace file '" ++ p.path ++ "': " ++ e.message)]
    match d.tree.createDirectories folder with
    | (tree, some e) => (failed e, { d with tree })
    | (tree, none) =>
      match tree.moveFile p.path (folder.join p.fileName) with
      | .error e => (failed e, { d with tree })
      | .ok tree =>
        ([.plain .info ("trace '" ++ p.fileName ++ "' classified as " ++ outcome.folder)],
          { d with tree })

/-- The run was given up: the file is closed and stays where it is. -/
def abandon (p : TracePrinter) (d : Desk) : Desk := d.close p.path

/-- The printer as an observer of runs. A state whose row has a position without a name is passed
over; there is none if the oracle is over the positions of the signature. -/
def observer (p : TracePrinter) : Observer Desk where
  init _ d := p.init d
  step j d :=
    match p.trace j.before.step j.state j.after d with
    | .ok r => r
    | .error _ => ([], d)
  finalize := p.finalize
  abandon := p.abandon

end TracePrinter

end TemporalMonitor
