/-!
Whole square roots, found bit by bit. `floor_mul_floor_le` and `lt_succ_floor_mul_succ_floor` say
that `floor n` is the greatest number whose square does not exceed `n`.
-/

namespace TokenSeal.SquareRoot

/-- Settles the low `bits` bits of a root of `n`, the top one first. A bit is set when the square
does not exceed `n`. -/
def settle (n : Nat) : Nat → Nat → Nat
  | 0, r => r
  | bits + 1, r =>
    let next := r + Nat.pow 2 bits
    settle n bits (if next * next ≤ n then next else r)

/-- The greatest number whose square is at most `n`. -/
def floor (n : Nat) : Nat := settle n (Nat.log2 n / 2 + 1) 0

/-- The root of a square. -/
def whole? (n : Nat) : Option Nat :=
  let r := floor n
  if r * r = n then some r else none

theorem settle_mul_settle_le {n : Nat} (bits : Nat) {r : Nat} (h : r * r ≤ n) :
    settle n bits r * settle n bits r ≤ n := by
  induction bits generalizing r with
  | zero => exact h
  | succ bits ih =>
    simp only [settle]
    split
    · exact ih (by assumption)
    · exact ih h

theorem lt_succ_settle {n : Nat} (bits : Nat) {r : Nat}
    (h : n < (r + Nat.pow 2 bits) * (r + Nat.pow 2 bits)) :
    n < (settle n bits r + 1) * (settle n bits r + 1) := by
  induction bits generalizing r with
  | zero => exact h
  | succ bits ih =>
    simp only [settle]
    split
    · have hdouble : 2 * Nat.pow 2 bits = Nat.pow 2 (bits + 1) := Nat.pow_succ'.symm
      apply ih
      rwa [Nat.add_assoc, ← Nat.two_mul, hdouble]
    · exact ih (by omega)

theorem floor_mul_floor_le (n : Nat) : floor n * floor n ≤ n :=
  settle_mul_settle_le _ (Nat.zero_le n)

theorem lt_succ_floor_mul_succ_floor (n : Nat) : n < (floor n + 1) * (floor n + 1) := by
  apply lt_succ_settle
  have hlt : n < Nat.pow 2 (Nat.log2 n + 1) := Nat.lt_log2_self
  have hle : Nat.pow 2 (Nat.log2 n + 1) ≤ Nat.pow 2 (Nat.log2 n / 2 + 1 + (Nat.log2 n / 2 + 1)) :=
    Nat.pow_le_pow_right (by omega) (by omega)
  rw [Nat.zero_add]
  exact Nat.lt_of_lt_of_le hlt (Nat.le_trans hle (Nat.le_of_eq (Nat.pow_add 2 _ _)))

end TokenSeal.SquareRoot
