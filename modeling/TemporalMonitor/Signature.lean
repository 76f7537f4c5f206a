import TemporalMonitor.Formula

/-!
# Signatures

A signature lists the variables of some formulas; the place of a variable in the list is its
position in the states of a trace. Indexing a formula replaces its variables by their positions, and
adds the variables that are new at the end of the signature, in the order in which they occur.
-/

namespace TemporalMonitor

/-- The names of the variables, by position. -/
abbrev Signature := List String

namespace Signature

/-- The position of a variable; a new one is added at the end. -/
def intern (name : String) : StateM Signature Nat := fun s ↦
  match s.idxOf? name with
  | some i => (i, s)
  | none => (s.length, s ++ [name])

/-- The formula over the positions of its variables. -/
def index (f : Formula String) : StateM Signature (Formula Nat) := f.mapM intern

/-- The name at a position; positions beyond the signature have none. -/
def name? (s : Signature) (i : Nat) : Option String := s[i]?

/-- A variable that is known keeps its position, and the signature stays the same. -/
theorem intern_of_idxOf? {s : Signature} {name : String} {i : Nat} (h : s.idxOf? name = some i) :
    (intern name).run s = (i, s) := by
  simp [intern, StateT.run, h]

/-- A variable that is new gets the next position. -/
theorem intern_of_not_mem {s : Signature} {name : String} (h : name ∉ s) :
    (intern name).run s = (s.length, s ++ [name]) := by
  have : s.idxOf? name = none := by simpa [List.idxOf?_eq_none_iff] using h
  simp [intern, StateT.run, this]

end Signature

end TemporalMonitor
