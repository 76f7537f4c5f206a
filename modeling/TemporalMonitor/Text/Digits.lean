/-!
# Digits

Numbers with zeros in front.
-/

namespace TemporalMonitor.Text

/-- The digits of a natural number, with zeros in front up to the given width. A number that has
more digits keeps all of them. -/
def padded (width n : Nat) : String :=
  "".pushn '0' (width - n.repr.length) ++ n.repr

end TemporalMonitor.Text
