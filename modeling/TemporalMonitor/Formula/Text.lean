import TemporalMonitor.Formula
import TemporalMonitor.Text.Quoted

/-!
# Written formulas

Two written forms of a formula, which differ in the operands of a binary operator only: `render`
writes `And(l, r)` and is the form of residuals in answers and annotated traces, `inspect` writes
`And((l, r))` and is the form in which a progression is logged.

An index is written in decimal, a name as a quoted text.
-/

namespace TemporalMonitor

/-- Types of variables that have a written form. -/
class Written (α : Type) where
  /-- The written form of a variable. -/
  written : α → String

instance : Written Nat := ⟨Nat.repr⟩

instance : Written String := ⟨Text.quote⟩

/-- The written form of a truth value. -/
def boolText (b : Bool) : String :=
  if b then "true" else "false"

namespace Formula

variable {α : Type} [Written α]

/-- The formula with the operands of a binary operator separated by a comma. -/
def render : Formula α → String
  | const b => "Const(" ++ boolText b ++ ")"
  | var a => "Var(" ++ Written.written a ++ ")"
  | neg f => "Not(" ++ f.render ++ ")"
  | conj f g => "And(" ++ f.render ++ ", " ++ g.render ++ ")"
  | disj f g => "Or(" ++ f.render ++ ", " ++ g.render ++ ")"
  | next f => "Next(" ++ f.render ++ ")"
  | eventually f => "Eventually(" ++ f.render ++ ")"
  | always f => "Always(" ++ f.render ++ ")"
  | strongUntil f g => "Until(" ++ f.render ++ ", " ++ g.render ++ ")"

/-- The formula with the operands of a binary operator as one pair. -/
def inspect : Formula α → String
  | const b => "Const(" ++ boolText b ++ ")"
  | var a => "Var(" ++ Written.written a ++ ")"
  | neg f => "Not(" ++ f.inspect ++ ")"
  | conj f g => "And((" ++ f.inspect ++ ", " ++ g.inspect ++ "))"
  | disj f g => "Or((" ++ f.inspect ++ ", " ++ g.inspect ++ "))"
  | next f => "Next(" ++ f.inspect ++ ")"
  | eventually f => "Eventually(" ++ f.inspect ++ ")"
  | always f => "Always(" ++ f.inspect ++ ")"
  | strongUntil f g => "Until((" ++ f.inspect ++ ", " ++ g.inspect ++ "))"

end Formula

end TemporalMonitor
