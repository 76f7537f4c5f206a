import TemporalMonitor.Progression.Lookup

/-!
# Tables of values and probes

A table that binds names to values, or to probes that are read on demand. A probe gives one reading
per call, and each reading is a value or a failure; a probe without readings left fails.
-/

namespace TemporalMonitor

/-- What a name is bound to. -/
inductive Binding (ε : Type) where
  /-- A known value. -/
  | value (b : Bool)
  /-- The readings that are still to come, one per call. -/
  | probe (readings : List (Except ε Bool))

/-- The written form of a binding, which does not reveal the readings of a probe. -/
def Binding.render {ε : Type} : Binding ε → String
  | value true => "Value(true)"
  | value false => "Value(false)"
  | probe _ => "Probe(..)"

/-- Names with their bindings. -/
abbrev Bindings (ε : Type) := List (String × Binding ε)

namespace Bindings

variable {ε : Type}

/-- Whether a name is bound to a probe. -/
def isProbe (table : Bindings ε) (name : String) : Bool :=
  match table.lookup name with
  | some (.probe _) => true
  | _ => false

/-- Binds a name that is in the table to something else. -/
def rebind (table : Bindings ε) (name : String) (binding : Binding ε) : Bindings ε :=
  table.map fun (n, b) ↦ if n = name then (n, binding) else (n, b)

/-- Asks the table for a name. A probe that has no readings left fails with `exhausted`. -/
def ask (exhausted : ε) (name : String) (table : Bindings ε) :
    Except ε (Option Bool) × Bindings ε :=
  match table.lookup name with
  | none => (.ok none, table)
  | some (.value b) => (.ok (some b), table)
  | some (.probe []) => (.error exhausted, table)
  | some (.probe (reading :: readings)) =>
    (reading.map some, table.rebind name (.probe readings))

/-- Looking up names in a table of bindings. -/
def lookups (exhausted : ε) : Lookup String (Bindings ε) ε := ⟨ask exhausted⟩

end Bindings

end TemporalMonitor
