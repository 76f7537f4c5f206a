import TemporalMonitor.Arguments
import TemporalMonitor.Log
import TemporalMonitor.Path

/-!
# Commands

What can be asked for on the command line: to validate a properties file, to verify its properties
over traces, and to trace them, that is, to write annotated traces. `Invocation.ofArguments` reads
the arguments of a program into an invocation.

The options for more and for less log output can be given in front of the command and behind it;
those behind it win.
-/

namespace TemporalMonitor

/-- What a verification is asked for. -/
structure VerifyOptions where
  /-- The trace files, and the directories that hold some. -/
  traces : List Path
  /-- The names of the properties. -/
  properties : List String := []
  /-- Whether all properties are verified. -/
  all : Bool := false
  /-- Whether traces are monitored one after the other. -/
  singleThread : Bool := false
  /-- The kind of progress bars that are shown. -/
  progress : Option String := none
  /-- Whether the report is written in JSON. -/
  json : Bool := false
  deriving DecidableEq, Repr

/-- What tracing is asked for. -/
structure TraceOptions where
  /-- The trace files, and the directories that hold some. -/
  traces : List Path
  /-- The names of the properties. -/
  properties : List String := []
  /-- Whether all properties are monitored. -/
  all : Bool := false
  /-- The directory for the annotated traces. -/
  output : Path := "traces"
  deriving DecidableEq, Repr

/-- A command. -/
inductive Command where
  | validate
  | verify (options : VerifyOptions)
  | trace (options : TraceOptions)
  deriving DecidableEq, Repr

/-- The paths that a command works on. -/
def Command.paths : Command → List Path
  | validate => []
  | verify options => options.traces
  | trace options => options.output :: options.traces

/-- How much is logged: records up to a level, or none. -/
abbrev LogFilter := Option LogLevel

/-- The name of a filter. -/
def LogFilter.name : LogFilter → String
  | none => "OFF"
  | some level => level.name

/-- The filter with the given number of levels. -/
def LogFilter.ofNat : Nat → LogFilter
  | 0 => none
  | 1 => some .error
  | 2 => some .warn
  | 3 => some .info
  | 4 => some .debug
  | _ => some .trace

/-- Whether a record passes a filter. -/
def LogFilter.passes (filter : LogFilter) (r : LogRecord) : Bool :=
  filter.any fun level ↦ r.level.ctorIdx ≤ level.ctorIdx

/-- A command with its properties file. -/
structure Invocation where
  /-- The path of the properties file. -/
  properties : Path
  /-- How much is logged. -/
  filter : LogFilter
  /-- The command. -/
  command : Command
  deriving DecidableEq, Repr

namespace Invocation

/-- How the program is called. -/
def usage : String :=
  "Usage: ltlmon [OPTIONS] <PROPERTIES> <COMMAND>\n\nCommands:\n" ++
  "  validate  Validate the properties, without running them\n" ++
  "  verify    Verify properties over the given traces\n" ++
  "  trace     Monitor traces and save them, annotated with the state of the properties\n" ++
  "  help      Print this message\n"

/-- The name and the version of the program. -/
def versionLine : String := "ltlmon 0.1.0\n"

end Invocation

/-- The answer to arguments that ask for something. -/
def UsageError.answer? : UsageError → Option String
  | displayHelp => some Invocation.usage
  | displayVersion => some Invocation.versionLine
  | _ => none

namespace Invocation

open Arguments

/-! ### The grammar -/

/-- The options of every level. -/
def globalOptions : List Item :=
  [⟨"verbose", .count, some "verbose", some 'v'⟩, ⟨"quiet", .count, some "quiet", some 'q'⟩,
   ⟨"help", .help, some "help", some 'h'⟩]

/-- The options that exclude each other. -/
def exclusive : List (String × String) := [("verbose", "quiet")]

/-- The operand of a command that works on traces. -/
def tracesOperand : Operand := ⟨⟨"traces", .append .path, none, none⟩, true⟩

/-- The options that select properties. -/
def selectionOptions : List Item :=
  [⟨"property", .append .anyText, some "property", some 'p'⟩, ⟨"all", .flag, some "all", some 'a'⟩]

/-- The arguments in front of a command. -/
def topGrammar : Grammar where
  options := globalOptions ++ [⟨"version", .version, some "version", some 'V'⟩]
  operand := some ⟨⟨"properties", .set .path, none, none⟩, false⟩
  commands := ["validate", "verify", "trace", "help"]

/-- The arguments behind a command. -/
def commandGrammar : String → Grammar
  | "verify" => {
      options := globalOptions ++ selectionOptions ++
        [⟨"single-thread", .flag, some "single-thread", none⟩,
         ⟨"progress", .set (.oneOf ["unicode", "ascii"]), some "progress", none⟩,
         ⟨"json", .flag, some "json", none⟩]
      operand := some tracesOperand }
  | "trace" => {
      options := globalOptions ++ selectionOptions ++
        [⟨"output", .set .path, some "output", some 'o'⟩]
      operand := some tracesOperand }
  | _ => { options := globalOptions }

/-! ### Reading arguments -/

/-- The command that was given. -/
def commandOf (name : String) (given : Given) : Command :=
  match name with
  | "verify" => .verify {
      traces := given.values "traces"
      properties := given.values "property"
      all := given.has "all"
      singleThread := given.has "single-thread"
      progress := (given.values "progress").head?
      json := given.has "json" }
  | "trace" => .trace {
      traces := given.values "traces"
      properties := given.values "property"
      all := given.has "all"
      output := (given.values "output").head?.getD "traces" }
  | _ => .validate

/-- The largest count of an option. -/
def maxCount : Nat := 255

/-- How often a global option was given: behind the command, or else in front of it. -/
def globalCount (front back : Given) (id : String) : Nat :=
  min maxCount (if back.has id then back.count id else front.count id)

/-- How much is logged. Without an option errors are logged. -/
def filterOf (front back : Given) : LogFilter :=
  .ofNat (1 + globalCount front back "verbose" - globalCount front back "quiet")

/-- The answer to a request for help on a command, or on none. Commands have no commands of their
own. -/
def helpOn : List String → UsageError
  | [] => .displayHelp
  | [name] => if topGrammar.commands.contains name then .displayHelp else .invalidCommand
  | _ => .invalidCommand

/-- Reads the arguments behind a command. -/
def readCommand (name : String) (args : List String) : Except UsageError Given := do
  let g := commandGrammar name
  let (p, _) ← readLevel g false {} args
  check g exclusive (← p.settle).given

/-- The invocation that arguments stand for. -/
def ofArguments (args : List String) : Except UsageError Invocation := do
  match ← readLevel topGrammar false {} args with
  | (p, .arguments) =>
    let p ← p.settle
    .error (if p.given.isEmpty then .displayHelpOnMissing else .missingCommand)
  | (p, .command name rest) =>
    if name = "help" then .error (helpOn rest)
    else
      let back ← readCommand name rest
      let front ← check topGrammar exclusive (← p.settle).given
      return {
        properties := (front.values "properties").head?.getD ""
        filter := filterOf front back
        command := commandOf name back }

end Invocation

end TemporalMonitor
