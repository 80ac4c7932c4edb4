import TokenSeal.Cipher.Aes
import TokenSeal.Proofs.Base64

/-! Deciphering undoes enciphering. A round substitutes bytes, shifts them between the columns and
mixes each column; mixing and unmixing are linear and cancel, so the round keys can be unmixed
instead of the columns. -/

namespace TokenSeal.Aes

theorem forall_byte {P : UInt8 → Prop} (h : ∀ n < 256, P (UInt8.ofNat n)) (x : UInt8) : P x := by
  simpa using h x.toNat x.toNat_lt

theorem eq_of_bits {v w : UInt32}
    (h : ∀ i < 32, v.toBitVec.getLsbD i = w.toBitVec.getLsbD i) : v = w :=
  UInt32.toBitVec_inj.1 (BitVec.eq_of_getLsbD_eq h)

/-! ### Words of four bytes -/

/-- The byte of a word that starts at a bit. -/
def part (w n : UInt32) : UInt8 := (w >>> n).toUInt8

section Words

variable (w : UInt32) (p q r s p' q' r' s' : UInt8)

theorem byte_eq_part (n : UInt32) : byte w n = (part w n).toNat := by
  simp [byte, part, UInt32.toNat_and, Nat.and_two_pow_sub_one_eq_mod _ 8]

theorem and_0xff : w &&& 0xff = w.toUInt8.toUInt32 := by
  apply UInt32.toNat_inj.1
  simp [Nat.and_two_pow_sub_one_eq_mod _ 8]

theorem shiftRight_24 : w >>> 24 = (part w 24).toUInt32 := by
  have hlt := w.toNat_lt
  apply UInt32.toNat_inj.1
  simp only [part, UInt32.toNat_shiftRight, UInt8.toNat_toUInt32, UInt32.toNat_toUInt8,
    Nat.shiftRight_eq_div_pow]
  exact (Nat.mod_eq_of_lt (by simp; omega)).symm

theorem wordOf_part : wordOf (part w 24) (part w 16) (part w 8) (part w 0) = w := by
  apply eq_of_bits
  intro i hi
  interval_cases i <;> simp [wordOf, part, -UInt32.toUInt32_toUInt8]

theorem part_wordOf : part (wordOf p q r s) 24 = p ∧ part (wordOf p q r s) 16 = q ∧
    part (wordOf p q r s) 8 = r ∧ part (wordOf p q r s) 0 = s := by
  refine ⟨?_, ?_, ?_, ?_⟩ <;> apply Base64.eq_of_bits <;> intro i hi <;>
    interval_cases i <;> simp [wordOf, part]

theorem wordOf_xor : wordOf p q r s ^^^ wordOf p' q' r' s' =
    wordOf (p ^^^ p') (q ^^^ q') (r ^^^ r') (s ^^^ s') := by
  apply eq_of_bits
  intro i hi
  interval_cases i <;> simp [wordOf]

theorem rotateRight_wordOf_8 : rotateRight (wordOf p q r s) 8 = wordOf s p q r := by
  apply eq_of_bits
  intro i hi
  interval_cases i <;> simp [wordOf, rotateRight]

theorem rotateRight_wordOf_16 : rotateRight (wordOf p q r s) 16 = wordOf r s p q := by
  apply eq_of_bits
  intro i hi
  interval_cases i <;> simp [wordOf, rotateRight]

theorem rotateRight_wordOf_24 : rotateRight (wordOf p q r s) 24 = wordOf q r s p := by
  apply eq_of_bits
  intro i hi
  interval_cases i <;> simp [wordOf, rotateRight]

end Words

/-! ### Mixing -/

/-- Doubling in a byte. -/
def twice (x : UInt8) : UInt8 := if x >>> 7 = 0 then x <<< 1 else x <<< 1 ^^^ 0x1b

theorem byte_xor_cancel (x y : UInt8) : x ^^^ (x ^^^ y) = y := by
  rw [← UInt8.xor_assoc, UInt8.xor_self, UInt8.zero_xor]

theorem byte_xor_left_comm (x y z : UInt8) : x ^^^ (y ^^^ z) = y ^^^ (x ^^^ z) := by
  rw [← UInt8.xor_assoc, UInt8.xor_comm x, UInt8.xor_assoc]

theorem twice_xor (x y : UInt8) : twice (x ^^^ y) = twice x ^^^ twice y := by
  have hhigh : ∀ z : UInt8, z >>> 7 = 0 ∨ z >>> 7 = 1 := by
    intro z
    have hlt := z.toNat_lt
    have hdiv : (z >>> 7).toNat = z.toNat / 2 ^ 7 := by simp [Nat.shiftRight_eq_div_pow]
    rcases (by omega : z.toNat / 2 ^ 7 = 0 ∨ z.toNat / 2 ^ 7 = 1) with h | h
    · exact .inl (UInt8.toNat_inj.1 (hdiv.trans h))
    · exact .inr (UInt8.toNat_inj.1 (hdiv.trans h))
  have hone : (1 : UInt8) ≠ 0 := by decide
  have hcancel : ∀ u v : UInt8, u ^^^ (v ^^^ u) = v := fun u v => by
    rw [UInt8.xor_comm v, byte_xor_cancel]
  unfold twice
  rw [UInt8.shiftRight_xor, UInt8.shiftLeft_xor]
  rcases hhigh x with hx | hx <;> rcases hhigh y with hy | hy
  · simp [hx, hy]
  · simp [hx, hy, hone, UInt8.xor_assoc]
  · simp [hx, hy, hone, UInt8.xor_assoc, UInt8.xor_comm (y <<< 1)]
  · simp [hx, hy, hone, UInt8.xor_assoc, hcancel]

/-- The column of a byte under unmixing. -/
def unmixedByte (x : UInt8) : UInt32 :=
  wordOf (twice (twice (twice x)) ^^^ twice (twice x) ^^^ twice x) (twice (twice (twice x)) ^^^ x)
    (twice (twice (twice x)) ^^^ twice (twice x) ^^^ x) (twice (twice (twice x)) ^^^ twice x ^^^ x)

/-- The column of a byte under mixing. -/
def mixedByte (x : UInt8) : UInt32 := wordOf (twice x) x x (twice x ^^^ x)

theorem double_toUInt32 : ∀ x : UInt8, double x.toUInt32 = (twice x).toUInt32 :=
  forall_byte (by decide +kernel)

theorem unmixed_toUInt32 (x : UInt8) : unmixed x.toUInt32 = unmixedByte x := by
  simp only [unmixed, double_toUInt32, unmixedByte, wordOf, UInt8.toUInt32_xor]

theorem unmixedByte_xor (x y : UInt8) :
    unmixedByte (x ^^^ y) = unmixedByte x ^^^ unmixedByte y := by
  simp only [unmixedByte, twice_xor, wordOf_xor]
  congr 1 <;> ac_rfl

/-- Unmixing adds up the columns of the four bytes, each turned to its place. -/
theorem unmix_wordOf (p q r s : UInt8) : unmix (wordOf p q r s) =
    unmixedByte p ^^^ rotateRight (unmixedByte q) 8 ^^^ rotateRight (unmixedByte r) 16 ^^^
      rotateRight (unmixedByte s) 24 := by
  obtain ⟨hp, hq, hr, hs⟩ := part_wordOf p q r s
  simp only [part, UInt32.shiftRight_zero] at hq hr hs
  simp only [unmix, shiftRight_24, and_0xff, hp, hq, hr, hs, unmixed_toUInt32]

theorem unmix_xor (v w : UInt32) : unmix (v ^^^ w) = unmix v ^^^ unmix w := by
  rw [← wordOf_part v, ← wordOf_part w, wordOf_xor]
  simp only [unmix_wordOf, unmixedByte_xor]
  simp only [unmixedByte, rotateRight_wordOf_8, rotateRight_wordOf_16, rotateRight_wordOf_24,
    wordOf_xor]
  congr 1 <;> ac_rfl

/-- The column that mixing makes of four bytes. -/
def mixWord (w : UInt32) : UInt32 :=
  mixedByte (part w 24) ^^^ rotateRight (mixedByte (part w 16)) 8 ^^^
    rotateRight (mixedByte (part w 8)) 16 ^^^ rotateRight (mixedByte (part w 0)) 24

theorem unmix_mixedByte (x : UInt8) : unmix (mixedByte x) = wordOf x 0 0 0 := by
  simp only [mixedByte, unmix_wordOf, unmixedByte, rotateRight_wordOf_8, rotateRight_wordOf_16,
    rotateRight_wordOf_24, wordOf_xor, twice_xor]
  -- every power of two but the first one comes up an even number of times
  congr 1 <;>
    simp only [UInt8.xor_assoc, UInt8.xor_comm, byte_xor_left_comm, UInt8.xor_self, byte_xor_cancel,
      UInt8.xor_zero]

theorem unmix_rotateRight (w : UInt32) : unmix (rotateRight w 8) = rotateRight (unmix w) 8 := by
  rw [← wordOf_part w]
  simp only [rotateRight_wordOf_8, unmix_wordOf, unmixedByte, rotateRight_wordOf_16,
    rotateRight_wordOf_24, wordOf_xor]
  congr 1 <;> ac_rfl

theorem rotateRight_16 (w : UInt32) : rotateRight w 16 = rotateRight (rotateRight w 8) 8 := by
  rw [← wordOf_part w, rotateRight_wordOf_16, rotateRight_wordOf_8, rotateRight_wordOf_8]

theorem rotateRight_24 (w : UInt32) : rotateRight w 24 = rotateRight (rotateRight w 16) 8 := by
  rw [← wordOf_part w, rotateRight_wordOf_24, rotateRight_wordOf_16, rotateRight_wordOf_8]

theorem unmix_mixWord (w : UInt32) : unmix (mixWord w) = w := by
  simp only [mixWord, unmix_xor, rotateRight_24, rotateRight_16, unmix_rotateRight, unmix_mixedByte,
    rotateRight_wordOf_8, wordOf_xor, UInt8.xor_zero, UInt8.zero_xor, wordOf_part]

/-! ### Tables -/

/-- The byte that a table of bytes gives for a byte. -/
def lookup (table : Array UInt32) (x : UInt8) : UInt8 := (table.toList.getD x.toNat 0).toUInt8

theorem getD_map {table : Array UInt32} (f : UInt32 → UInt32) {n : Nat} (h : n < table.size) :
    (table.map f).getD n 0 = f (table.getD n 0) := by
  simp [Array.getD, h]

/-- A table of bytes holds nothing else. -/
theorem getD_eq_lookup {table : Array UInt32}
    (h : table.toList.all (fun v => v.toUInt8.toUInt32 == v) = true) (x : UInt8) :
    table.getD x.toNat 0 = (lookup table x).toUInt32 := by
  have hget : table.toList.getD x.toNat 0 = table.getD x.toNat 0 := by
    simp [Array.getD_eq_getD_getElem?]
  rw [lookup, hget]
  by_cases hx : x.toNat < table.size
  · have hv := List.all_eq_true.1 h (table.getD x.toNat 0) (by simp [hx])
    exact (beq_iff_eq.1 hv).symm
  · simp [hx]

/-- Both tables hold 256 bytes, and one takes back the other. -/
theorem tables_inverse : substitution.size = 256 ∧ inverseSubstitution.size = 256 ∧
    substitution.toList.all (fun v => v.toUInt8.toUInt32 == v) = true ∧
    inverseSubstitution.toList.all (fun v => v.toUInt8.toUInt32 == v) = true ∧
    ∀ n < 256,
      lookup inverseSubstitution (lookup substitution (UInt8.ofNat n)) = UInt8.ofNat n := by
  decide +kernel

theorem getD_substitution (x : UInt8) :
    substitution.getD x.toNat 0 = (lookup substitution x).toUInt32 := by
  obtain ⟨-, -, hbytes, -⟩ := tables_inverse
  exact getD_eq_lookup hbytes x

theorem getD_inverseSubstitution (x : UInt8) :
    inverseSubstitution.getD x.toNat 0 = (lookup inverseSubstitution x).toUInt32 := by
  obtain ⟨-, -, -, hbytes, -⟩ := tables_inverse
  exact getD_eq_lookup hbytes x

theorem lookup_lookup (x : UInt8) : lookup inverseSubstitution (lookup substitution x) = x := by
  obtain ⟨-, -, -, -, hall⟩ := tables_inverse
  simpa using hall x.toNat x.toNat_lt

theorem getD_mixTable (x : UInt8) :
    mixTable.getD x.toNat 0 = mixedByte (lookup substitution x) := by
  obtain ⟨hsize, -⟩ := tables_inverse
  have hlt : x.toNat < substitution.size := by
    rw [hsize]
    exact x.toNat_lt
  rw [mixTable, getD_map _ hlt, getD_substitution]
  simp only [double_toUInt32, mixedByte, wordOf, UInt8.toUInt32_xor]

theorem getD_unmixTable (x : UInt8) :
    unmixTable.getD x.toNat 0 = unmixedByte (lookup inverseSubstitution x) := by
  obtain ⟨-, hsize, -⟩ := tables_inverse
  have hlt : x.toNat < inverseSubstitution.size := by
    rw [hsize]
    exact x.toNat_lt
  rw [unmixTable, getD_map _ hlt, getD_inverseSubstitution, unmixed_toUInt32]

/-! ### Rounds -/

/-- The word of substituted bytes, one from each of four words. -/
def gather (table : Array UInt32) (a b c d : UInt32) : UInt32 :=
  wordOf (lookup table (part a 24)) (lookup table (part b 16)) (lookup table (part c 8))
    (lookup table (part d 0))

theorem lastColumn_substitution (a b c d k : UInt32) :
    lastColumn substitution a b c d k = gather substitution a b c d ^^^ k := by
  simp only [lastColumn, byte_eq_part, getD_substitution, gather, wordOf]

theorem lastColumn_inverseSubstitution (a b c d k : UInt32) :
    lastColumn inverseSubstitution a b c d k = gather inverseSubstitution a b c d ^^^ k := by
  simp only [lastColumn, byte_eq_part, getD_inverseSubstitution, gather, wordOf]

theorem mixColumn_mixTable (a b c d k : UInt32) :
    mixColumn mixTable a b c d k = mixWord (gather substitution a b c d) ^^^ k := by
  simp only [mixColumn, byte_eq_part, getD_mixTable, gather, mixWord, part_wordOf]

theorem mixColumn_unmixTable (a b c d k : UInt32) :
    mixColumn unmixTable a b c d k = unmix (gather inverseSubstitution a b c d) ^^^ k := by
  simp only [mixColumn, byte_eq_part, getD_unmixTable, gather, unmix_wordOf]

namespace Block

/-- Substitution, each row shifted to the left by its number. -/
def substituted (x : Block) : Block :=
  ⟨gather substitution x.a x.b x.c x.d, gather substitution x.b x.c x.d x.a,
    gather substitution x.c x.d x.a x.b, gather substitution x.d x.a x.b x.c⟩

/-- Inverse substitution, each row shifted to the right by its number. -/
def restored (x : Block) : Block :=
  ⟨gather inverseSubstitution x.a x.d x.c x.b, gather inverseSubstitution x.b x.a x.d x.c,
    gather inverseSubstitution x.c x.b x.a x.d, gather inverseSubstitution x.d x.c x.b x.a⟩

def mixColumns (x : Block) : Block := ⟨mixWord x.a, mixWord x.b, mixWord x.c, mixWord x.d⟩

def unmixColumns (x : Block) : Block :=
  ⟨unmix x.a, unmix x.b, unmix x.c, unmix x.d⟩

theorem restored_substituted (x : Block) : x.substituted.restored = x := by
  simp [restored, substituted, gather, part_wordOf, lookup_lookup, wordOf_part]

theorem unmixColumns_mixColumns (x : Block) : x.mixColumns.unmixColumns = x := by
  simp [mixColumns, unmixColumns, unmix_mixWord]

theorem unmixColumns_xor (x y : Block) :
    (x.xor y).unmixColumns = x.unmixColumns.xor y.unmixColumns := by
  simp [unmixColumns, xor, unmix_xor]

theorem xor_xor_self (x y : Block) : (x.xor y).xor y = x := by
  simp only [xor, UInt32.xor_assoc, UInt32.xor_self, UInt32.xor_zero]

theorem ofBytes_bytes (x : Block) : ofBytes x.bytes = x := by
  have hword : ∀ w : UInt32,
      wordOf (w >>> 24).toUInt8 (w >>> 16).toUInt8 (w >>> 8).toUInt8 w.toUInt8 = w :=
    fun w => by simpa [part] using wordOf_part w
  simp [bytes, wordBytes, ofBytes, hword]

theorem bytes_ofBytes {block : Bytes} (h : block.length = 16) : (ofBytes block).bytes = block := by
  have hword : ∀ p q r s, wordBytes (wordOf p q r s) = [p, q, r, s] := by
    intro p q r s
    obtain ⟨hp, hq, hr, hs⟩ := part_wordOf p q r s
    simp only [part, UInt32.shiftRight_zero] at hp hq hr hs
    rw [wordBytes, hp, hq, hr, hs]
  match block, h with
  | [a0, a1, a2, a3, b0, b1, b2, b3, c0, c1, c2, c3, d0, d1, d2, d3], _ =>
    simp only [ofBytes, bytes, hword]
    rfl

end Block

open Block

theorem encryptRounds_last (k x : Block) : encryptRounds [k] x = x.substituted.xor k := by
  simp [encryptRounds, lastColumn_substitution, substituted, Block.xor]

theorem encryptRounds_cons {k : Block} {rest : List Block} (h : rest ≠ []) (x : Block) :
    encryptRounds (k :: rest) x = encryptRounds rest (x.substituted.mixColumns.xor k) := by
  cases rest with
  | nil => exact absurd rfl h
  | cons k' rest =>
    simp [encryptRounds, mixColumn_mixTable, substituted, mixColumns, Block.xor]

theorem decryptRounds_last (k x : Block) : decryptRounds [k] x = x.restored.xor k := by
  simp [decryptRounds, lastColumn_inverseSubstitution, restored, Block.xor]

theorem decryptRounds_cons {k : Block} {rest : List Block} (h : rest ≠ []) (x : Block) :
    decryptRounds (k :: rest) x = decryptRounds rest (x.restored.unmixColumns.xor k) := by
  cases rest with
  | nil => exact absurd rfl h
  | cons k' rest =>
    simp [decryptRounds, mixColumn_unmixTable, restored, unmixColumns, Block.xor]

/-- The rounds of decryption under unmixed keys take back the rounds of encryption but the first
substitution. -/
theorem decryptRounds_encryptRounds (last : Block) (tail : List Block) (htail : tail ≠ []) :
    ∀ (keys : List Block) (x : Block),
      decryptRounds ((keys.reverse.map unmixColumns) ++ tail)
        ((encryptRounds (keys ++ [last]) x).xor last) = decryptRounds tail x.substituted := by
  intro keys
  induction keys generalizing tail with
  | nil =>
    intro x
    simp [encryptRounds_last, xor_xor_self]
  | cons k rest ih =>
    intro x
    have hround := ih (k.unmixColumns :: tail) (by simp) (x.substituted.mixColumns.xor k)
    rw [decryptRounds_cons htail, restored_substituted, unmixColumns_xor, unmixColumns_mixColumns,
      xor_xor_self] at hround
    rw [List.cons_append, encryptRounds_cons (by simp)]
    simpa using hround

theorem runRounds_inverseKeys (first : Block) (keys : List Block) (last x : Block) :
    runRounds decryptRounds (inverseKeys (first :: (keys ++ [last])))
      (runRounds encryptRounds (first :: (keys ++ [last])) x) = x := by
  have hkeys : inverseKeys (first :: (keys ++ [last])) =
      last :: (keys.reverse.map unmixColumns ++ [first]) := by
    simp [inverseKeys, unmixColumns]
  rw [hkeys, runRounds, runRounds, decryptRounds_encryptRounds last [first] (by simp),
    decryptRounds_last, restored_substituted, xor_xor_self]

/-- On blocks, the rounds of decryption take back those of encryption. -/
theorem Schedule.leftInverse_rounds (key : Bytes) :
    Function.LeftInverse (runRounds decryptRounds (ofKey key).backward)
      (runRounds encryptRounds (ofKey key).forward) := by
  intro x
  have hlength : 2 ≤ (roundKeys key).length := by
    simp only [roundKeys, List.length_map, List.length_range]
    omega
  obtain ⟨first, keys, last, hkeys⟩ :
      ∃ first keys last, roundKeys key = first :: (keys ++ [last]) := by
    cases hr : roundKeys key with
    | nil => simp [hr] at hlength
    | cons first rest =>
      have hrest : rest ≠ [] := by
        rintro rfl
        simp [hr] at hlength
      exact ⟨first, rest.dropLast, rest.getLast hrest, by rw [List.dropLast_concat_getLast]⟩
  rw [ofKey, hkeys, runRounds_inverseKeys]

/-- Deciphering undoes enciphering, whatever the key. -/
theorem Schedule.decrypt_encrypt (key : Bytes) {block : Bytes} (h : block.length = 16) :
    (ofKey key).decrypt ((ofKey key).encrypt block) = block := by
  rw [decrypt, encrypt, ofBytes_bytes, leftInverse_rounds key, bytes_ofBytes h]

instance : Finite Block :=
  Finite.of_injective (fun x : Block => (x.a, x.b, x.c, x.d)) (by
    rintro ⟨a, b, c, d⟩ ⟨a', b', c', d'⟩ h
    simpa using h)

/-- Enciphering undoes deciphering too: it takes no two blocks to the same one, so that it reaches
all of them. -/
theorem Schedule.encrypt_decrypt (key : Bytes) {block : Bytes} (h : block.length = 16) :
    (ofKey key).encrypt ((ofKey key).decrypt block) = block := by
  have hback := leftInverse_rounds key
  have honto := Finite.surjective_of_injective hback.injective
  rw [encrypt, decrypt, ofBytes_bytes, hback.rightInverse_of_surjective honto, bytes_ofBytes h]

end TokenSeal.Aes
