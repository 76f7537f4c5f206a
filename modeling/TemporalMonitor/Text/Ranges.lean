/-!
# Ranges of code points

Classes of characters given as lists of closed ranges of code points. A table lists its ranges in
increasing order and without overlap, so each class has one table.
-/

namespace TemporalMonitor.Text

/-- A list of closed ranges of code points. -/
abbrev Ranges := List (Nat × Nat)

/-- Whether a character lies in one of the ranges. -/
def Ranges.covers (table : Ranges) (c : Char) : Bool :=
  table.any fun (lo, hi) ↦ decide (lo ≤ c.toNat) && decide (c.toNat ≤ hi)

@[simp]
theorem Ranges.covers_iff {table : Ranges} {c : Char} :
    table.covers c = true ↔ ∃ r ∈ table, r.1 ≤ c.toNat ∧ c.toNat ≤ r.2 := by
  simp [Ranges.covers]

end TemporalMonitor.Text
