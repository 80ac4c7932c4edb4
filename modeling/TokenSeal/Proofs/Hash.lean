import Mathlib
import TokenSeal.Hash.Digest

/-! The lengths of digests and of tags. -/

namespace TokenSeal

theorem Sha256.State.length_bytes (s : Sha256.State) : s.bytes.length = 32 := by
  simp [bytes, wordBytes]

theorem Sha512.State.length_bytes (s : Sha512.State) : s.bytes.length = 64 := by
  simp [bytes, wordBytes]

namespace HashId

/-- A state of the width that the hash works with. -/
def Matches : HashId → HashState → Prop
  | sha256, .narrow _ => True
  | sha256, .wide _ => False
  | _, .narrow _ => False
  | _, .wide _ => True

theorem matches_start (h : HashId) : h.Matches h.start := by
  cases h <;> trivial

theorem Matches.absorb {h : HashId} {s : HashState} (hs : h.Matches s) (block : Bytes) :
    h.Matches (HmacKey.absorb s block) := by
  cases s <;> cases h <;> simp_all [HmacKey.absorb, Matches]

theorem length_finish {h : HashId} {s : HashState} (hs : h.Matches s) (before : Nat)
    (message : Bytes) : (h.finish s before message).length = h.size := by
  cases s with
  | narrow s =>
    cases h with
    | sha256 => simp [finish, size, Sha256.State.length_bytes]
    | _ => exact hs.elim
  | wide s =>
    cases h with
    | sha256 => exact hs.elim
    | _ => simp [finish, size, Sha512.State.length_bytes]

theorem length_digest (h : HashId) (message : Bytes) : (h.digest message).length = h.size :=
  length_finish h.matches_start 0 message

end HashId

theorem length_flatMap_of_length {size : Nat} {part : Nat → Bytes}
    (h : ∀ i, (part i).length = size) (indices : List Nat) :
    (indices.flatMap part).length = indices.length * size := by
  induction indices with
  | nil => simp
  | cons i rest ih =>
    rw [List.flatMap_cons, List.length_append, h, ih, List.length_cons, Nat.succ_mul, Nat.add_comm]

theorem HashId.length_flatMap_digest (h : HashId) (message : Nat → Bytes) (indices : List Nat) :
    (indices.flatMap fun i => h.digest (message i)).length = indices.length * h.size :=
  length_flatMap_of_length (fun i => h.length_digest (message i)) indices

theorem length_hmac (h : HashId) (key message : Bytes) : (hmac h key message).length = h.size :=
  HashId.length_finish (h.matches_start.absorb _) _ _

/-- As many digests as are counted in rounds reach the length asked for. -/
theorem HashId.le_rounds_mul_size (h : HashId) (length : Nat) :
    length ≤ (length + h.size - 1) / h.size * h.size := by
  have hsize : 0 < h.size := by cases h <;> decide
  have hdiv := Nat.div_add_mod (length + h.size - 1) h.size
  have hmod := Nat.mod_lt (length + h.size - 1) hsize
  rw [Nat.mul_comm] at hdiv
  omega

theorem Pbkdf2.length_derivedBlock (h : HashId) (password seed : Bytes) (count : Nat) :
    (derivedBlock (HmacKey.make h password) seed count).length = h.size := by
  cases h with
  | sha256 =>
    simp [derivedBlock, HmacKey.make, HmacKey.absorb, HashId.start, HashId.size,
      Sha256.State.length_bytes]
  | _ =>
    simp [derivedBlock, HmacKey.make, HmacKey.absorb, HashId.start, HashId.size,
      Sha512.State.length_bytes]

theorem Pbkdf2.length_derive (h : HashId) (password salt : Bytes) (count length : Nat) :
    (derive h password salt count length).length = length := by
  rw [derive, List.length_take,
    length_flatMap_of_length (fun i => length_derivedBlock h password _ count), List.length_range]
  exact Nat.min_eq_left (h.le_rounds_mul_size length)

end TokenSeal
