import TemporalMonitor.Binary64
import TemporalMonitor.Text.Digits

/-!
# Binary fractions and their decimal texts

A quotient rounded to double precision is a binary fraction: a mantissa over a power of two. It has
two texts. The one with a fixed number of places rounds the exact value, a half to the even
neighbour. The shortest one has the fewest places among all decimals that lie closer to the fraction
than to any other number of double precision, and of two with so few places it is the nearer one.
-/

namespace TemporalMonitor.Binary64

/-- The number `mantissa / 2 ^ scale`. -/
structure Fraction where
  /-- The numerator. -/
  mantissa : Nat
  /-- The exponent of the denominator. -/
  scale : Nat
  deriving DecidableEq, Repr

namespace Fraction

/-- The quotient `n / d`, for a positive `d` and an `n` that is not much larger. -/
def ofQuotient (n d : Nat) : Fraction :=
  if n = 0 then ⟨0, 0⟩
  else
    let wide := precision + d.log2 - n.log2
    let scale := if twoPow precision * d ≤ n * twoPow wide then wide - 1 else wide
    ⟨roundDiv (n * twoPow scale) d, scale⟩

/-- The text with `places` places. -/
def fixed (places : Nat) (x : Fraction) : String :=
  let n := roundDiv (x.mantissa * tenPow places) (twoPow x.scale)
  (n / tenPow places).repr ++ "." ++ Text.padded places (n % tenPow places)

/-- Whether `n / 10 ^ places` is closer to the fraction than to any other number of double
precision. Halfway to a neighbour counts if the mantissa is even. Below a power of two numbers lie
twice as close as above it. -/
def isRoundedFrom (x : Fraction) (places n : Nat) : Bool :=
  let m := 4 * x.mantissa
  let below := if x.mantissa = twoPow (precision - 1) then m - 1 else m - 2
  let above := m + 2
  let point := n * twoPow (x.scale + 2)
  if x.mantissa % 2 = 0 then below * tenPow places ≤ point && point ≤ above * tenPow places
  else below * tenPow places < point && point < above * tenPow places

/-- The decimal with `places` places that the fraction is rounded from, the nearer one of two. -/
def decimal? (x : Fraction) (places : Nat) : Option Nat :=
  let n := x.mantissa * tenPow places / twoPow x.scale
  let nearer := roundDiv (x.mantissa * tenPow places) (twoPow x.scale)
  [nearer, n, n + 1].find? (x.isRoundedFrom places)

/-- The decimal with the fewest places that the fraction is rounded from, and its places. With
`scale` places the fraction is a decimal itself. -/
def shortest (x : Fraction) : Nat × Nat :=
  ((List.range (x.scale + 1)).findSome? fun places ↦
    (x.decimal? places).map (·, places)).getD (x.mantissa * Nat.pow 5 x.scale, x.scale)

/-- The number of zeros behind the point from which on a text has an exponent. -/
def exponentFrom : Nat := 5

/-- The shortest text. It has a point, or an exponent if there would be too many zeros behind the
point. -/
def text (x : Fraction) : String :=
  let (n, places) := x.shortest
  if n = 0 then "0.0"
  else if places = 0 then n.repr ++ ".0"
  else if places < n.repr.length + exponentFrom then
    (n / tenPow places).repr ++ "." ++ Text.padded places (n % tenPow places)
  else
    let (first, rest) := n.repr.toList.splitAt 1
    String.ofList (if rest.isEmpty then first else first ++ '.' :: rest) ++ "e-" ++
      (places + 1 - n.repr.length).repr

end Fraction

end TemporalMonitor.Binary64
