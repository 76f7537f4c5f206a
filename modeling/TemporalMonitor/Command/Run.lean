import TemporalMonitor.Command
import TemporalMonitor.Properties.Load
import TemporalMonitor.Report
import TemporalMonitor.Trace.File
import TemporalMonitor.Trace.Printer

/-!
# Running commands

Running an invocation over a file tree gives the tree afterwards, what was printed, the log, and the
failure that ended it, if there was one. What was printed before a failure stays.

Two things are left open. How long the work takes is told when the results are written out
(`Execution.output`). And how a batch that is monitored in parallel ends may depend on the order in
which its runs get on; so `verify` is given the batch that comes of it.
-/

namespace TemporalMonitor

/-- Why a command fails. -/
inductive CommandError where
  /-- Properties are selected by name although all are asked for. -/
  | allAndNamed
  /-- The properties cannot be loaded. -/
  | unloaded (reason : LoadError)
  /-- A trace cannot be read. -/
  | verification (path : Path) (position : Nat) (reason : TraceError)
  /-- A trace cannot be read. -/
  | tracing (path : Path) (position : Nat) (reason : TraceError)
  /-- The output directory cannot be made. -/
  | outputFolder (path : Path) (reason : FileError)
  deriving DecidableEq, Repr

namespace CommandError

/-- What is said about properties that are selected by name although all are asked for. -/
def allAndNamedMessage : String :=
  "the --all flag is incompatible with individually-specified properties.\n\nExamples:\n" ++
  "'ltlmon PATH/TO/PROPERTIES verify TRACES' checks only the assumes over the traces\n" ++
  "'ltlmon PATH/TO/PROPERTIES verify -p PROPERTY_1 -p PROPERTY_2 TRACES' checks the properties " ++
  "PROPERTY_1 and PROPERTY_2 together over the traces\n" ++
  "'ltlmon PATH/TO/PROPERTIES verify --all TRACES' checks all specified properties together " ++
  "over the traces"

/-- What failed. -/
def message : CommandError → String
  | allAndNamed => allAndNamedMessage
  | unloaded reason => reason.message
  | verification path _ _ => "verification of trace '" ++ path ++ "' failed"
  | tracing path _ _ => "tracing of '" ++ path ++ "' failed"
  | outputFolder path _ => "failed to create output folder '" ++ path ++ "'"

/-- Why it failed. -/
def causes : CommandError → List String
  | allAndNamed => []
  | unloaded reason => reason.causes
  | verification _ i reason | tracing _ i reason =>
    ("failed to read trace #" ++ i.repr) :: reason.message :: reason.causes
  | outputFolder _ reason => [reason.message]

/-- The causes below each other, numbered if there is more than one. -/
def causeLines (causes : List String) : List String :=
  if causes.length = 1 then causes.map ("    " ++ ·)
  else causes.zipIdx.map fun (cause, i) ↦ "    " ++ i.repr ++ ": " ++ cause

/-- The failure and its causes, as they are told at the end of the program. -/
def report (e : CommandError) : String :=
  let causes := e.causes
  "Error: " ++ e.message ++
    if causes.isEmpty then ""
    else "\n\nCaused by:\n" ++ String.intercalate "\n" (causeLines causes)

end CommandError

/-- Something that is printed as a result. -/
inductive Printed where
  | line (text : String)
  | report (r : Report) (json : Bool)

/-- What is printed, where the work took the given time. -/
def Printed.text (elapsed : Elapsed) : Printed → String
  | line text => text ++ "\n"
  | report r json => (if json then (r.toJson elapsed).render else r.render elapsed) ++ "\n"

/-- What running a command gives. -/
structure Execution where
  /-- The files afterwards. -/
  tree : FileTree
  /-- What was printed as the result. -/
  printed : List Printed := []
  /-- What was printed about the work. -/
  notes : String := ""
  /-- The records made. -/
  log : Log := []
  /-- The failure that ended the command. -/
  failure : Option CommandError := none

namespace Execution

/-- An execution that has printed notes. -/
def note (e : Execution) (text : String) : Execution := { e with notes := e.notes ++ text }

/-- An execution that has made records. -/
def logged (e : Execution) (log : Log) : Execution := { e with log := e.log ++ log }

/-- An execution that has printed a part of its result. -/
def print (e : Execution) (p : Printed) : Execution := { e with printed := e.printed ++ [p] }

/-- The text of the result, where the work took the given time. -/
def output (e : Execution) (elapsed : Elapsed := {}) : String :=
  String.join (e.printed.map (·.text elapsed))

/-- An execution that has failed. -/
def fail (e : Execution) (reason : CommandError) : Execution := { e with failure := some reason }

/-- Loads properties and goes on with them; `waiting` is printed in front. -/
def withProperties (e : Execution) (waiting : String) (path : Path) (selection : Selection)
    (go : MonitoredProperties → Execution → Execution) : Execution :=
  let e := (e.note waiting).logged (Properties.loadLog e.tree path selection)
  match Properties.load e.tree path selection with
  | .error reason => e.fail (.unloaded reason)
  | .ok m => go m (e.note " done\n")

end Execution

/-- The guarantees that options select; names are refused if all are asked for. -/
def selectionOf (names : List String) (all : Bool) : Except CommandError Selection :=
  if all && !names.isEmpty then .error .allAndNamed
  else .ok (if all then .all else .named names)

/-- The name of the properties in a file. -/
def propertiesName (path : Path) : String := path.fileStem?.getD "properties"

/-- Validates properties. -/
def validate (path : Path) (e : Execution) : Execution :=
  e.withProperties "Processing properties, please wait..." path .all fun m e ↦
    e.print <| .line <| "properties '" ++ propertiesName path ++ "' successfully validated: " ++
      m.oracle.assumes.length.repr ++ " assumes, " ++ m.catalogue.guarantees.length.repr ++
      " guarantees over " ++ m.catalogue.signature.length.repr ++ " variables"

/-- How the sources of a batch are monitored. -/
abbrev Monitoring := Monitor → List (Source TraceError) → Batch TraceError

/-- How traces are verified: in parallel, unless one after the other is asked for. -/
def VerifyOptions.monitoring (options : VerifyOptions) (parallel : Monitoring) : Monitoring :=
  if options.singleThread then Monitor.run else parallel

/-- Verifies properties over traces, and prints a report. -/
def verify (parallel : Monitoring) (path : Path) (options : VerifyOptions) (e : Execution) :
    Execution :=
  match selectionOf options.properties options.all with
  | .error reason => e.fail reason
  | .ok selection =>
    e.withProperties "Processing properties..." path selection fun m e ↦
      let files := traceFiles e.tree options.traces
      let e := e.logged [.plain .info ("found " ++ files.length.repr ++ " trace files")]
      let note (text : String) (e : Execution) : Execution :=
        if options.progress.isSome then e else e.note text
      let batch := options.monitoring parallel ⟨m.oracle, {}⟩
        (files.map (TraceFile.source e.tree m.catalogue.signature))
      let e := (note "Verification in progress..." e).logged batch.log
      match batch.failure with
      | some (i, reason) => e.fail (.verification (files.getD i "") i reason)
      | none =>
        let report := Report.ofStatistics (propertiesName path) files.length m.catalogue.monitored
          batch.statistics
        (note " done!\n" e).print (.report report options.json)

/-- The name of a file without the endings of trace files. -/
def traceStem (path : Path) : String :=
  let name := path.fileName?.getD ""
  let cut (ending : String) : Option String :=
    if name.endsWith ending then some (name.dropEnd ending.length).toString else none
  ((cut ".csv.gz").or (cut ".csv")).getD name

/-- The name of the annotated trace of the trace at a position. -/
def traceName (i : Nat) (path : Path) : String :=
  Text.padded 4 i ++ "_" ++ traceStem path

/-- Writes annotated traces. -/
def trace (path : Path) (options : TraceOptions) (e : Execution) : Execution :=
  match selectionOf options.properties options.all with
  | .error reason => e.fail reason
  | .ok selection =>
    e.withProperties "Processing properties, please wait..." path selection fun m e ↦
      let files := traceFiles e.tree options.traces
      let e := e.note "Trace computation in progress..."
      match e.tree.createDirectories options.output with
      | (tree, some reason) => { e with tree }.fail (.outputFolder options.output reason)
      | (tree, none) =>
        let items := files.zipIdx.map fun (file, i) ↦
          let printer : TracePrinter := ⟨options.output, traceName i file, m.catalogue⟩
          (printer.observer, fun d : Desk ↦ TraceFile.source d.tree m.catalogue.signature file)
        let (batch, desk) := (Monitor.mk m.oracle {}).traces items ⟨tree, none⟩
        let e := { e with tree := desk.tree }.logged batch.log
        match batch.failure with
        | some (i, reason) => e.fail (.tracing (files.getD i "") i reason)
        | none => e.note " done\n"

/-- Runs an invocation over a file tree. -/
def Invocation.runWith (parallel : Monitoring) (i : Invocation) (tree : FileTree) : Execution :=
  let e : Execution := { tree := tree }
  match i.command with
  | .validate => validate i.properties e
  | .verify options => verify parallel i.properties options e
  | .trace options => trace i.properties options e

/-- Runs an invocation over a file tree, with a single worker for what is done in parallel, who
takes one trace after the other. -/
def Invocation.run (i : Invocation) (tree : FileTree) : Execution :=
  i.runWith Monitor.run tree

end TemporalMonitor
