import TokenSeal.Deflate.Tables
/-!
Code lengths for symbols with given frequencies. The two lightest of what is left are joined until
one tree remains, whose depths are the lengths. Lengths above a limit are then brought down to it,
and shorter codes make room for them.
-/

namespace TokenSeal.Deflate

/-- A tree with its weight and the number of leaves at each depth. -/
structure Tree where
  weight : Nat
  leaves : List Nat

namespace Tree

def leaf (weight : Nat) : Tree := ⟨weight, [1]⟩

def sum : List Nat → List Nat → List Nat
  | [], ys => ys
  | xs, [] => xs
  | x :: xs, y :: ys => (x + y) :: sum xs ys

def join (s t : Tree) : Tree := ⟨s.weight + t.weight, 0 :: sum s.leaves t.leaves⟩

/-- Takes the lightest of the leaves and trees, both in order of weight; a leaf if both are equal. -/
def lightest? : List Nat → List Tree → Option (Tree × List Nat × List Tree)
  | [], [] => none
  | [], t :: trees => some (t, [], trees)
  | w :: weights, [] => some (leaf w, weights, [])
  | w :: weights, t :: trees =>
    if t.weight < w then some (t, w :: weights, trees) else some (leaf w, weights, t :: trees)

/-- Joins the two lightest until one is left. -/
def grow : Nat → List Nat → List Tree → Option Tree
  | 0, _, _ => none
  | fuel + 1, weights, trees =>
    match lightest? weights trees with
    | none => none
    | some (s, weights, trees) =>
      match lightest? weights trees with
      | none => some s
      | some (t, weights, trees) => grow fuel weights (trees ++ [join s t])

end Tree

/-- How many symbols have each length, for the weights of the symbols in order. The code of a
single symbol has one bit. -/
def depthCounts (weights : List Nat) : List Nat :=
  if weights.length = 1 then [0, 1]
  else ((Tree.grow (weights.length + 1) weights []).map (·.leaves)).getD []

/-- Makes the longest codes of at most `n` bits one bit longer, for one more code. -/
def splitLongest (counts : Array Nat) : Nat → Array Nat
  | 0 => counts
  | n + 1 =>
    if counts.getD (n + 1) 0 = 0 then splitLongest counts n
    else (counts.modify (n + 1) (· - 1)).modify (n + 2) (· + 2)

/-- Makes room for codes of the limit that find none. -/
def makeRoom (limit : Nat) : Nat → Array Nat → Array Nat
  | 0, counts => counts
  | excess + 1, counts =>
    makeRoom limit excess (splitLongest (counts.modify limit (· - 1)) (limit - 1))

/-- The counts when no length may be above the limit. -/
def limited (limit : Nat) (counts : List Nat) : Array Nat :=
  let kept := ((List.range limit).map fun n => counts.getD n 0).toArray.push
    ((counts.drop limit).foldl (· + ·) 0)
  let space := (List.range limit).foldl (fun s n => s + kept.getD (n + 1) 0 * Nat.pow 2 (limit - (n + 1))) 0
  makeRoom limit (space - Nat.pow 2 limit) kept

/-- The length of the code of each symbol, zero for symbols that do not occur. The more frequent
of two symbols never has the longer code. -/
def codeLengths (limit : Nat) (frequencies : List Nat) : List Nat :=
  let used := frequencies.zipIdx.filter (0 < ·.1)
  let sorted := used.mergeSort fun a b => a.1 ≤ b.1
  let counts := limited limit (depthCounts (sorted.map (·.1)))
  let lengths := (List.range limit).flatMap fun n => List.replicate (counts.getD (n + 1) 0) (n + 1)
  ((sorted.reverse.zip lengths).foldl (fun all e => all.setIfInBounds e.1.2 e.2)
    (Array.replicate frequencies.length 0)).toList

end TokenSeal.Deflate
