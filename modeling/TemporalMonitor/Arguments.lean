import TemporalMonitor.Arguments.Similarity

/-!
# Command-line arguments

A grammar says which options, operands and commands may be given. An option has a long name, behind
two dashes, and maybe a short one, a letter behind one dash; short options can be given together
behind one dash. A value follows its option as the next argument, or in the same argument: behind an
equals sign, and for a short option also directly. Two dashes alone end the options: all that
follows are operands. A command ends the arguments of its level, and what follows belongs to it.

Arguments are read from left to right, and the first fault decides the answer. The values of an
option or of an operand are checked when it is clear that no more of them follow, at the next option
or at the end; until then they are pending. A fault in an argument itself comes before a fault in
pending values.
-/

namespace TemporalMonitor

/-- Why arguments are not accepted. Asking for help is one of the reasons. -/
inductive UsageError where
  | unknownArgument
  | invalidValue
  | tooManyValues
  | argumentConflict
  | missingRequiredArgument
  | invalidCommand
  | missingCommand
  | displayHelp
  | displayHelpOnMissing
  | displayVersion
  deriving DecidableEq, Repr

/-- What is said about arguments that are not accepted. -/
def UsageError.message : UsageError → String
  | unknownArgument => "error: unexpected argument found"
  | invalidValue => "error: an invalid value was given, or none where one is required"
  | tooManyValues => "error: a value was given where none is expected"
  | argumentConflict => "error: arguments cannot be used together or several times"
  | missingRequiredArgument => "error: a required argument was not provided"
  | invalidCommand => "error: unrecognized subcommand"
  | missingCommand => "error: a subcommand is required but none was provided"
  | displayHelp | displayHelpOnMissing | displayVersion => "error: nothing to do"

namespace Arguments

/-- Which values are accepted. -/
inductive ValueRule where
  /-- Any text. -/
  | anyText
  /-- Any text but the empty one. -/
  | path
  /-- One of the given words. -/
  | oneOf (words : List String)
  deriving DecidableEq, Repr

/-- Whether a value is accepted. -/
def ValueRule.accepts : ValueRule → String → Bool
  | anyText, _ => true
  | path, s => !s.isEmpty
  | oneOf words, s => words.contains s

/-- What an option does. -/
inductive Action where
  /-- It can be given once. -/
  | flag
  /-- It counts how often it is given. -/
  | count
  /-- It takes a value, once. -/
  | set (rule : ValueRule)
  /-- It takes a value each time. -/
  | append (rule : ValueRule)
  /-- It asks for help. -/
  | help
  /-- It asks for the version. -/
  | version
  deriving DecidableEq, Repr

/-- An option takes a value. -/
def Action.takesValue : Action → Bool
  | set _ | append _ => true
  | _ => false

/-- An option, or an operand, which has no names but stands by itself. -/
structure Item where
  /-- The name by which what is given is looked up. -/
  id : String
  /-- What it does. -/
  action : Action
  /-- The long name. -/
  long : Option String := none
  /-- The short name. -/
  short : Option Char := none
  deriving DecidableEq, Repr

/-- The operands of a level. -/
structure Operand where
  /-- The operand. -/
  item : Item
  /-- Whether there may be more than one. -/
  many : Bool
  deriving DecidableEq, Repr

/-- What may be given on a level. -/
structure Grammar where
  /-- The options. -/
  options : List Item
  /-- The operand, which has to be given. -/
  operand : Option Operand := none
  /-- The commands. -/
  commands : List String := []

/-- What was given on a level, in order: the name of each option and operand, with its value. -/
abbrev Given := List (String × Option String)

namespace Given

/-- Whether an option was given. -/
def has (g : Given) (id : String) : Bool := g.any (·.1 == id)

/-- How often an option was given. -/
def count (g : Given) (id : String) : Nat := (g.filter (·.1 == id)).length

/-- The values of an option. -/
def values (g : Given) (id : String) : List String :=
  (g.filter (·.1 == id)).filterMap (·.2)

end Given

/-- How far a level was read. -/
structure Progress where
  /-- What was accepted. -/
  given : Given := []
  /-- The option or operand whose values are pending. -/
  pending : Option (Item × List String) := none
  /-- Whether the next argument is the value of the pending option. -/
  awaiting : Bool := false
  /-- The number of operands. -/
  operands : Nat := 0

namespace Progress

/-- Accepts values, all of which have to fit. -/
def acceptValues (p : Progress) (id : String) (rule : ValueRule) (values : List String) :
    Except UsageError Progress :=
  if values.all rule.accepts then
    .ok { p with given := p.given ++ values.map (id, some ·) }
  else .error .invalidValue

/-- Accepts an option or an operand with its values. -/
def accept (p : Progress) (item : Item) (values : List String) : Except UsageError Progress :=
  match item.action with
  | .help => .error .displayHelp
  | .version => .error .displayVersion
  | .count => .ok { p with given := p.given ++ [(item.id, none)] }
  | .flag =>
    if p.given.has item.id then .error .argumentConflict
    else .ok { p with given := p.given ++ [(item.id, none)] }
  | .set rule =>
    if values.isEmpty then .error .invalidValue
    else if p.given.has item.id then .error .argumentConflict
    else p.acceptValues item.id rule values
  | .append rule =>
    if values.isEmpty then .error .invalidValue
    else p.acceptValues item.id rule values

/-- Accepts what is pending. -/
def settle (p : Progress) : Except UsageError Progress :=
  match p.pending with
  | none => .ok p
  | some (item, values) => { p with pending := none, awaiting := false }.accept item values

/-- An option without a value, or with the value in the same argument. -/
def complete (p : Progress) (item : Item) (values : List String) : Except UsageError Progress := do
  (← p.settle).accept item values

/-- An option whose value is still to come. -/
def await (p : Progress) (item : Item) : Except UsageError Progress := do
  return { ← p.settle with pending := some (item, []), awaiting := true }

/-- An option that takes a value. -/
def option (p : Progress) (item : Item) : Option String → Except UsageError Progress
  | some value => p.complete item [value]
  | none => p.await item

/-- An option by its long name. -/
def long (g : Grammar) (p : Progress) (name : String) (value : Option String) :
    Except UsageError Progress :=
  match g.options.find? (·.long == some name) with
  | none => .error .unknownArgument
  | some item =>
    if item.action.takesValue then p.option item value
    else if value.isSome then .error .tooManyValues
    else p.complete item []

/-- The value behind a short option in the same argument. -/
def attached : List Char → Option String
  | [] => none
  | '=' :: cs => some (String.ofList cs)
  | cs => some (String.ofList cs)

/-- Options by their short names. An option that takes a value takes all that follows. -/
def short (g : Grammar) (p : Progress) : List Char → Except UsageError Progress
  | [] => .ok p
  | c :: cs =>
    match g.options.find? (·.short == some c) with
    | none => .error .unknownArgument
    | some item =>
      if item.action.takesValue then p.option item (attached cs)
      else
        match p.complete item [] with
        | .ok p => short g p cs
        | .error e => .error e

/-- Adds a value to what is pending. -/
def addValue (p : Progress) (value : String) : Progress :=
  { p with
    pending := p.pending.map fun (item, values) ↦ (item, values ++ [value])
    awaiting := false }

/-- The reason why there may be no further operand. A word that resembles a command is taken for
one that is misspelt, unless options have ended and it is a command. -/
def tooMany (g : Grammar) (ended : Bool) (arg : String) : UsageError :=
  if ended && g.commands.contains arg then .unknownArgument
  else if g.commands.any (isSimilar arg) then .invalidCommand
  else .unknownArgument

/-- An operand. -/
def operand (g : Grammar) (ended : Bool) (p : Progress) (arg : String) :
    Except UsageError Progress :=
  match g.operand with
  | none => .error (tooMany g ended arg)
  | some o =>
    if o.many && p.pending.any (·.1 = o.item) then .ok (p.addValue arg)
    else if o.many || p.operands = 0 then do
      let p ← p.settle
      return { p with pending := some (o.item, [arg]), operands := p.operands + 1 }
    else .error (tooMany g ended arg)

end Progress

/-- An argument by its form. -/
inductive Form where
  /-- The mark that ends the options. -/
  | endOfOptions
  | long (name : String) (value : Option String)
  | short (letters : List Char)
  | plain

/-- Splits a text at its first equals sign. -/
def splitAtEquals (cs : List Char) : String × Option String :=
  let name := cs.takeWhile (· ≠ '=')
  (String.ofList name,
    if name.length < cs.length then some (String.ofList (cs.drop (name.length + 1))) else none)

/-- The form of an argument. A dash alone is not an option. -/
def Form.ofArgument (arg : String) : Form :=
  match arg.toList with
  | ['-', '-'] => .endOfOptions
  | '-' :: '-' :: cs =>
    let (name, value) := splitAtEquals cs
    .long name value
  | ['-'] => .plain
  | '-' :: cs => .short cs
  | _ => .plain

/-- Where a level ends. -/
inductive End where
  /-- There are no arguments left. -/
  | arguments
  /-- A command follows, with its arguments. -/
  | command (name : String) (rest : List String)

/-- Reads the arguments of a level. Once the options have `ended` there are only operands. -/
def readLevel (g : Grammar) (ended : Bool) (p : Progress) :
    List String → Except UsageError (Progress × End)
  | [] => .ok (p, .arguments)
  | arg :: rest =>
    if ended then
      match p.operand g true arg with
      | .ok p => readLevel g true p rest
      | .error e => .error e
    else if !p.awaiting && g.commands.contains arg then .ok (p, .command arg rest)
    else
      match Form.ofArgument arg with
      | .endOfOptions => readLevel g true p rest
      | .long name value =>
        match p.long g name value with
        | .ok p => readLevel g false p rest
        | .error e => .error e
      | .short letters =>
        match p.short g letters with
        | .ok p => readLevel g false p rest
        | .error e => .error e
      | .plain =>
        if p.awaiting then readLevel g false (p.addValue arg) rest
        else
          match p.operand g false arg with
          | .ok p => readLevel g false p rest
          | .error e => .error e

/-- Checks what was given on a level as a whole: options that exclude each other, and then the
operand that has to be given. -/
def check (g : Grammar) (exclusive : List (String × String)) (given : Given) :
    Except UsageError Given :=
  if exclusive.any fun (a, b) ↦ given.has a && given.has b then .error .argumentConflict
  else if g.operand.any fun o ↦ !given.has o.item.id then .error .missingRequiredArgument
  else .ok given

end Arguments

end TemporalMonitor
