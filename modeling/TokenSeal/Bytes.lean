/-!
Byte strings, and the numbers they spell with the most significant byte first.
-/

namespace TokenSeal

abbrev Bytes := List UInt8

namespace Bytes

/-- The `width` low-order bytes of a number. -/
def ofNat : Nat → Nat → Bytes
  | 0, _ => []
  | width + 1, n => UInt8.ofNat (n >>> (8 * width)) :: ofNat width n

def toNat (bytes : Bytes) : Nat :=
  bytes.foldl (fun n b => n * 256 + b.toNat) 0

/-- How many bytes a number needs; zero needs none. -/
def widthOf (n : Nat) : Nat :=
  if n = 0 then 0 else Nat.log2 n / 8 + 1

/-- The fewest bytes that spell a number, but at least one. -/
def minimal (n : Nat) : Bytes :=
  ofNat (max 1 (widthOf n)) n

def zeros (n : Nat) : Bytes :=
  List.replicate n 0

/-- Bytewise exclusive or, as long as the shorter argument. -/
def xor (a b : Bytes) : Bytes :=
  List.zipWith (· ^^^ ·) a b

def ofText (s : String) : Bytes :=
  s.toUTF8.data.toList

/-- The text a byte string spells in UTF-8, if it does. -/
def toText? (bytes : Bytes) : Option String :=
  String.fromUTF8? ⟨bytes.toArray⟩

theorem length_ofNat (width n : Nat) : (ofNat width n).length = width := by
  induction width with
  | zero => rfl
  | succ w ih => simp [ofNat, ih]

theorem length_zeros (n : Nat) : (zeros n).length = n := by
  simp [zeros]

theorem length_xor (a b : Bytes) : (xor a b).length = min a.length b.length := by
  simp [xor]

end Bytes

/-- Consecutive pieces of `size` elements; the last one may be shorter. -/
def chunks {α : Type} (size : Nat) (items : List α) : List (List α) :=
  go items.length items []
where
  go : Nat → List α → List (List α) → List (List α)
    | 0, _, acc => acc.reverse
    | _ + 1, [], acc => acc.reverse
    | fuel + 1, rest, acc => go fuel (rest.drop size) (rest.take size :: acc)

section Chunks

variable {α : Type} {size : Nat}

theorem chunks_go_acc (fuel : Nat) (items : List α) (acc : List (List α)) :
    chunks.go size fuel items acc = acc.reverse ++ chunks.go size fuel items [] := by
  induction fuel generalizing items acc with
  | zero => simp [chunks.go]
  | succ fuel ih =>
    cases items with
    | nil => simp [chunks.go]
    | cons x rest =>
      simp only [chunks.go]
      rw [ih _ (_ :: acc), ih _ [_]]
      simp

theorem chunks_go_fuel (hsize : 0 < size) {fuel fuel' : Nat} {items : List α}
    (h : items.length ≤ fuel) (h' : items.length ≤ fuel') :
    chunks.go size fuel items [] = chunks.go size fuel' items [] := by
  induction fuel generalizing fuel' items with
  | zero =>
    have hnil : items = [] := List.length_eq_zero_iff.1 (by omega)
    subst hnil
    cases fuel' <;> rfl
  | succ fuel ih =>
    cases items with
    | nil => cases fuel' <;> rfl
    | cons x rest =>
      cases fuel' with
      | zero => simp at h'
      | succ fuel' =>
        simp only [List.length_cons] at h h'
        simp only [chunks.go]
        rw [chunks_go_acc fuel, chunks_go_acc fuel']
        congr 1
        refine ih ?_ ?_ <;> rw [List.length_drop, List.length_cons] <;> omega

theorem chunks_nil : chunks size ([] : List α) = [] := rfl

theorem chunks_eq_cons (hsize : 0 < size) {items : List α} (h : items ≠ []) :
    chunks size items = items.take size :: chunks size (items.drop size) := by
  cases items with
  | nil => exact absurd rfl h
  | cons x rest =>
    simp only [chunks, List.length_cons, chunks.go]
    rw [chunks_go_acc]
    simp only [List.reverse_cons, List.reverse_nil, List.nil_append, List.singleton_append]
    congr 1
    refine chunks_go_fuel hsize ?_ (Nat.le_refl _)
    rw [List.length_drop, List.length_cons]
    omega

theorem flatten_chunks (hsize : 0 < size) (items : List α) :
    (chunks size items).flatten = items := by
  induction hn : items.length using Nat.strongRecOn generalizing items with
  | _ n ih =>
    by_cases h : items = []
    · simp [h, chunks_nil]
    · have hpos := List.length_pos_iff.2 h
      rw [chunks_eq_cons hsize h, List.flatten_cons,
        ih (items.drop size).length (by rw [List.length_drop]; omega) _ rfl,
        List.take_append_drop]

theorem length_le_of_mem_chunks (hsize : 0 < size) {items piece : List α}
    (hpiece : piece ∈ chunks size items) : piece.length ≤ size := by
  induction hn : items.length using Nat.strongRecOn generalizing items with
  | _ n ih =>
    by_cases h : items = []
    · simp [h, chunks_nil] at hpiece
    · have hpos := List.length_pos_iff.2 h
      rw [chunks_eq_cons hsize h] at hpiece
      rcases List.mem_cons.1 hpiece with rfl | hpiece
      · exact List.length_take_le size items
      · exact ih (items.drop size).length (by rw [List.length_drop]; omega) hpiece rfl

end Chunks

end TokenSeal
