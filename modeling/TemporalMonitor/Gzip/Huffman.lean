import TemporalMonitor.Gzip.Bits

/-!
# Huffman codes

A code is a binary tree whose leaves are the symbols; the path to a leaf is the code word of its
symbol. A canonical code is given by the length of each word alone: on every level of the tree the
leaves come first, in the order of the symbols, and behind them the inner nodes. So the tree is
built from its deepest level up, by pairing the nodes of a level.
-/

namespace TemporalMonitor.Gzip

/-- Why compressed data cannot be read further. -/
inductive Stop where
  /-- The data end too early. -/
  | truncated
  /-- The data are not compressed data. -/
  | corrupt
  deriving DecidableEq, Repr

/-- A tree of code words. -/
inductive Tree where
  /-- No code word leads here. -/
  | empty
  | leaf (symbol : Nat)
  | node (zero one : Tree)
  deriving DecidableEq, Repr

/-- A code, by its words that start with a zero and those that start with a one. -/
structure Code where
  /-- The words that start with a zero. -/
  zero : Tree
  /-- The words that start with a one. -/
  one : Tree
  deriving DecidableEq, Repr

/-- Follows bits to a leaf. -/
def Tree.decode : Tree → Bits → Except Stop (Nat × Bits)
  | empty, _ => .error .corrupt
  | leaf symbol, bits => .ok (symbol, bits)
  | node _ _, [] => .error .truncated
  | node zero one, b :: bits => if b then one.decode bits else zero.decode bits

/-- Reads one code word. -/
def Code.decode (c : Code) : Bits → Except Stop (Nat × Bits)
  | [] => .error .truncated
  | b :: bits => if b then c.one.decode bits else c.zero.decode bits

theorem Tree.decode_length {t : Tree} {bits rest : Bits} {symbol : Nat}
    (h : t.decode bits = .ok (symbol, rest)) : rest.length ≤ bits.length := by
  fun_induction Tree.decode t bits with
  | case1 => simp at h
  | case2 =>
    simp only [Except.ok.injEq, Prod.mk.injEq] at h
    simp [h.2]
  | case3 => simp at h
  | case4 _ _ _ ih | case5 _ _ _ _ _ ih =>
    have := ih h
    simp only [List.length_cons]
    omega

theorem Code.decode_length {c : Code} {bits rest : Bits} {symbol : Nat}
    (h : c.decode bits = .ok (symbol, rest)) : rest.length < bits.length := by
  unfold Code.decode at h
  split at h
  · simp at h
  · split at h <;>
    · have := Tree.decode_length h
      simp only [List.length_cons]
      omega

namespace Code

/-- The nodes of the level above. -/
def pairUp : List Tree → List Tree
  | t :: u :: rest => .node t u :: pairUp rest
  | [t] => [.node t .empty]
  | [] => []

/-- The symbols whose code words have the given length, in order. -/
def symbolsOfLength (lengths : List Nat) (n : Nat) : List Nat :=
  (lengths.zipIdx.filter (·.1 = n)).map (·.2)

/-- The nodes at depth `depth`, where no code word is longer than `depth + below`. -/
def level (lengths : List Nat) : (depth below : Nat) → List Tree
  | depth, 0 => (symbolsOfLength lengths depth).map .leaf
  | depth, below + 1 =>
    (symbolsOfLength lengths depth).map .leaf ++ pairUp (level lengths (depth + 1) below)

/-- The length of the longest code words. -/
def maxLength : Nat := 15

/-- The share of all words that start with a word of the code, in parts of `2 ^ maxLength`. -/
def share (lengths : List Nat) : Nat :=
  (lengths.filter (0 < ·)).foldl (fun sum n ↦ sum + Nat.pow 2 (maxLength - n)) 0

/-- Every long enough word starts with a word of the code. -/
def isComplete (lengths : List Nat) : Bool := share lengths = Nat.pow 2 maxLength

/-- The code has no word, or one word of one bit. -/
def isTrivial (lengths : List Nat) : Bool :=
  match lengths.filter (0 < ·) with
  | [] => true
  | [n] => n = 1
  | _ => false

/-- The code whose words have the given lengths, where zero stands for no word. Only a trivial code
may be incomplete. -/
def ofLengths? (lengths : List Nat) : Option Code :=
  if isComplete lengths || isTrivial lengths then
    match level lengths 1 (maxLength - 1) with
    | [] => some ⟨.empty, .empty⟩
    | [t] => some ⟨t, .empty⟩
    | t :: u :: _ => some ⟨t, u⟩
  else none

/-- The code whose words have the given lengths, if it is complete. -/
def ofCompleteLengths? (lengths : List Nat) : Option Code :=
  if isComplete lengths then ofLengths? lengths else none

end Code

end TemporalMonitor.Gzip
