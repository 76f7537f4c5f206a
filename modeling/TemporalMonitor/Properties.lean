import TemporalMonitor.Formula

/-!
# Properties files

The content of a properties file: formulas that a trace has to satisfy in order to count, and named
formulas that are checked.
-/

namespace TemporalMonitor

/-- A named formula. -/
structure Property where
  /-- The name by which it is selected. -/
  name : String
  /-- The formula. -/
  formula : Formula String
  deriving DecidableEq, Repr

/-- The content of a properties file. -/
structure Properties where
  /-- The formulas that a trace has to satisfy in order to count. -/
  assumes : List (Formula String) := []
  /-- The formulas that can be checked. -/
  guarantees : List Property := []
  deriving DecidableEq, Repr

end TemporalMonitor
