/-!
# Similar words

How alike two words are, as a number between zero and one. A letter of one word matches an equal
letter of the other word that stands not too far from its place and is not matched yet. The measure
is the mean of three shares: the matched letters in the first word, those in the second word, and
among the matched letters those that are in the same order; two letters out of order count once.
-/

namespace TemporalMonitor.Arguments

/-- The first place in `[low, high)` that holds the letter and is not taken. -/
def findMatch (word : List Char) (taken : List Nat) (low high : Nat) (c : Char) : Option Nat :=
  (word.zipIdx.find? fun (d, j) ↦ low ≤ j && j < high && c == d && !taken.contains j).map (·.2)

/-- Matches the letters from place `i` on: the letters that are matched, in order, and the places
that they are matched with. -/
def matchLetters (reach : Nat) (word : List Char) :
    (i : Nat) → List Char → (taken : List Nat) → List Char × List Nat
  | _, [], taken => ([], taken)
  | i, c :: cs, taken =>
    match findMatch word taken (i - reach) (i + reach + 1) c with
    | none => matchLetters reach word (i + 1) cs taken
    | some j =>
      let (letters, taken) := matchLetters reach word (i + 1) cs (j :: taken)
      (c :: letters, taken)

/-- How alike two words are. -/
def similarity (a b : List Char) : Float :=
  if a.isEmpty && b.isEmpty then 1
  else
    let reach := max a.length b.length / 2 - 1
    let (letters, places) := matchLetters reach b 0 a []
    let others := (b.zipIdx.filter fun (_, j) ↦ places.contains j).map (·.1)
    let disordered := ((letters.zip others).filter fun (c, d) ↦ c != d).length / 2
    let n := letters.length
    if n = 0 then 0
    else
      (n.toFloat / a.length.toFloat + n.toFloat / b.length.toFloat +
        (n - disordered).toFloat / n.toFloat) / 3

/-- Words that may be meant for each other. -/
def isSimilar (a b : String) : Bool := 0.7 < similarity a.toList b.toList

end TemporalMonitor.Arguments
