/-!
# Double precision

Binary floating-point numbers with 53 bits, as exact values. A number is rounded to the nearest of
them, and of two that are equally near to the one whose last bit is zero.
-/

namespace TemporalMonitor.Binary64

/-- The quotient rounded to the nearest natural number, a half to the even neighbour. -/
def roundDiv (num den : Nat) : Nat :=
  let q := num / den
  let r := num % den
  if den < 2 * r || (2 * r = den && q % 2 = 1) then q + 1 else q

/-- A power of two. -/
def twoPow (n : Nat) : Nat := Nat.pow 2 n

/-- A power of ten. -/
def tenPow (n : Nat) : Nat := Nat.pow 10 n

/-- The number of bits of a mantissa. -/
def precision : Nat := 53

/-- The natural number nearest to `n` that has at most 53 bits before a run of zeros. -/
def nearest (n : Nat) : Nat :=
  let drop := n.log2 + 1 - precision
  roundDiv n (twoPow drop) * twoPow drop

/-- The first power of two that is beyond the largest finite number. -/
def infinity : Nat := twoPow 1024

end TemporalMonitor.Binary64
