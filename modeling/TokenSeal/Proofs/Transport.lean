import TokenSeal.Proofs.Cipher
import TokenSeal.Proofs.Draw
import TokenSeal.Proofs.Hash
import TokenSeal.Rsa.Oaep

/-! What is encrypted with an RSA key is decrypted with it. The padding is taken off as it was put
on, and the padded number is below the modulus; of the key it is asked that its two functions are
inverse to each other. -/

namespace TokenSeal

/-! ### Numbers of a width -/

namespace Bytes

theorem toNat_cons (x : UInt8) (b : Bytes) :
    toNat (x :: b) = x.toNat * 256 ^ b.length + toNat b := by
  have hfold : ∀ (b : Bytes) (n : Nat), b.foldl (fun n x => n * 256 + x.toNat) n =
      n * 256 ^ b.length + toNat b := by
    intro b
    induction b with
    | nil => simp [toNat]
    | cons y b ih =>
      intro n
      have hy : toNat (y :: b) = (0 * 256 + y.toNat) * 256 ^ b.length + toNat b := ih _
      rw [List.foldl_cons, ih, hy, List.length_cons, Nat.pow_succ]
      ring
  have hx := hfold b (0 * 256 + x.toNat)
  rw [toNat, List.foldl_cons, hx, Nat.zero_mul, Nat.zero_add]

theorem toNat_lt (bytes : Bytes) : toNat bytes < 256 ^ bytes.length := by
  induction bytes with
  | nil => simp [toNat]
  | cons x b ih =>
    have hx : x.toNat + 1 ≤ 256 := x.toNat_lt
    have hmul := Nat.mul_le_mul_right (256 ^ b.length) hx
    rw [toNat_cons, List.length_cons, Nat.pow_succ]
    rw [Nat.add_mul] at hmul
    omega

theorem toNat_ofNat {width n : Nat} (h : n < 256 ^ width) : toNat (ofNat width n) = n := by
  have hmod : ∀ width, toNat (ofNat width n) = n % 256 ^ width := by
    intro width
    induction width with
    | zero => simp [ofNat, toNat, Nat.mod_one]
    | succ w ih =>
      have hpow : (2 : Nat) ^ (8 * w) = 256 ^ w := by rw [Nat.pow_mul]
      have hbyte : (UInt8.ofNat (n / 256 ^ w)).toNat = n / 256 ^ w % 256 := UInt8.toNat_ofNat'
      rw [ofNat, toNat_cons, ih, length_ofNat, Nat.shiftRight_eq_div_pow, hpow, hbyte,
        Nat.pow_succ, Nat.mod_mul, Nat.add_comm, Nat.mul_comm]
  rw [hmod, Nat.mod_eq_of_lt h]

theorem ofNat_inj {width m n : Nat} (hm : m < 256 ^ width) (hn : n < 256 ^ width)
    (h : ofNat width m = ofNat width n) : m = n := by
  rw [← toNat_ofNat hm, h, toNat_ofNat hn]

theorem toNat_injective {a b : Bytes} (hlen : a.length = b.length) (h : toNat a = toNat b) :
    a = b := by
  induction a generalizing b with
  | nil => exact (List.length_eq_zero_iff.1 hlen.symm).symm
  | cons x a ih =>
    cases b with
    | nil => simp at hlen
    | cons y b =>
      have hlen' : a.length = b.length := by simpa using hlen
      have ha := toNat_lt a
      have hb := toNat_lt b
      rw [toNat_cons, toNat_cons, ← hlen', Nat.mul_comm, Nat.mul_comm y.toNat] at h
      rw [← hlen'] at hb
      have hpos : 0 < 256 ^ a.length := by omega
      have hx := congrArg (· / 256 ^ a.length) h
      simp only [Nat.mul_add_div hpos, Nat.div_eq_of_lt ha, Nat.div_eq_of_lt hb,
        Nat.add_zero] at hx
      rw [hx] at h
      rw [UInt8.toNat_inj.1 hx, ih hlen' (by omega)]

theorem ofNat_toNat (bytes : Bytes) : ofNat bytes.length (toNat bytes) = bytes :=
  toNat_injective (length_ofNat _ _) (toNat_ofNat (toNat_lt bytes))

end Bytes

/-! ### Padding -/

namespace Rsa

theorem length_mask (h : HashId) (seed : Bytes) (length : Nat) :
    (mask h seed length).length = length := by
  rw [mask, List.length_take, HashId.length_flatMap_digest, List.length_range]
  exact Nat.min_eq_left (h.le_rounds_mul_size length)

/-- The message comes back out of a padded block, which is as wide as it should be and starts with
a zero byte. -/
theorem oaepMessage?_oaepBlock? {h : HashId} {width : Nat} {seed message block : Bytes}
    (hseed : seed.length = h.size) (hblock : oaepBlock? h width seed message = some block) :
    oaepMessage? h block = some message ∧ block.length = width ∧ block.head? = some 0 := by
  unfold oaepBlock? at hblock
  split at hblock
  · cases hblock
  · next hroom =>
    let room := width - h.size - 1
    let body := h.digest [] ++ Bytes.zeros (room - h.size - message.length - 1) ++ 1 :: message
    let masked := Bytes.xor body (mask h seed room)
    have hbody : body.length = room := by
      simp only [body, List.length_append, HashId.length_digest, Bytes.length_zeros, room,
        List.length_cons]
      omega
    have hmasked : masked.length = room := by
      rw [Bytes.length_xor, hbody, length_mask, Nat.min_self]
    have hhidden : (Bytes.xor seed (mask h masked h.size)).length = h.size := by
      rw [Bytes.length_xor, hseed, length_mask, Nat.min_self]
    have heq : block = 0 :: (Bytes.xor seed (mask h masked h.size) ++ masked) := by
      simpa [masked, body, room] using hblock.symm
    have hseedBack : Bytes.xor (Bytes.xor seed (mask h masked h.size)) (mask h masked h.size) =
        seed := Bytes.xor_xor_cancel (by rw [hseed, length_mask])
    have hbodyBack : Bytes.xor masked (mask h seed room) = body :=
      Bytes.xor_xor_cancel (by rw [hbody, length_mask])
    have hsplit : body = h.digest [] ++
        (Bytes.zeros (room - h.size - message.length - 1) ++ 1 :: message) :=
      List.append_assoc _ _ _
    have hdigest : body.take h.size = h.digest [] := by
      rw [hsplit, List.take_left' (HashId.length_digest h [])]
    have hrest : (body.drop h.size).dropWhile (· = 0) = 1 :: message := by
      rw [hsplit, List.drop_left' (HashId.length_digest h []), Bytes.zeros,
        List.dropWhile_append_of_pos (by simp)]
      simp
    refine ⟨?_, ?_, by rw [heq]; rfl⟩
    · rw [heq]
      simp only [oaepMessage?, List.drop_left' hhidden, List.take_left' hhidden, hseedBack, hmasked,
        hbodyBack, hdigest, hrest]
      simp
    · rw [heq, List.length_cons, List.length_append, hhidden, hmasked]
      omega

end Rsa

/-! ### The two functions of a key -/

theorem Modular.powBits_lt {base exponent modulus acc : Nat} (hmodulus : 0 < modulus)
    (hacc : acc < modulus) (bits : Nat) :
    powBits base exponent modulus bits acc < modulus := by
  induction bits generalizing acc with
  | zero => exact hacc
  | succ bits ih =>
    rw [powBits]
    refine ih ?_
    split <;> exact Nat.mod_lt _ hmodulus

theorem RsaKey.applyPublic_lt {k : RsaKey} (hmodulus : 0 < k.modulus) (m : Nat) :
    k.applyPublic m < k.modulus := by
  unfold applyPublic Modular.pow
  split
  · exact Nat.mod_lt _ hmodulus
  · exact Modular.powBits_lt hmodulus (Nat.mod_lt _ hmodulus) _

/-- The private function takes back the public one. -/
def RsaKey.Inverts (k : RsaKey) : Prop :=
  ∀ s, k.secret = some s → ∀ m < k.modulus, k.applySecret s (k.applyPublic m) = .ok m

theorem RsaKey.modulus_bounds {k : RsaKey} (h : 0 < k.width) :
    256 ^ (k.width - 1) ≤ k.modulus ∧ k.modulus < 256 ^ k.width := by
  have hne : k.modulus ≠ 0 := by
    intro hzero
    simp [width, Bytes.widthOf, hzero] at h
  have hwidth : k.width = Nat.log2 k.modulus / 8 + 1 := by
    simp [width, Bytes.widthOf, hne]
  have hpow : ∀ n, (256 : Nat) ^ n = 2 ^ (8 * n) := fun n => by rw [Nat.pow_mul]
  constructor
  · calc 256 ^ (k.width - 1) = 2 ^ (8 * (k.width - 1)) := hpow _
      _ ≤ 2 ^ Nat.log2 k.modulus := Nat.pow_le_pow_right (by omega) (by omega)
      _ ≤ k.modulus := Nat.log2_self_le hne
  · calc k.modulus < 2 ^ (Nat.log2 k.modulus + 1) := Nat.lt_log2_self
      _ ≤ 2 ^ (8 * k.width) := Nat.pow_le_pow_right (by omega) (by omega)
      _ = 256 ^ k.width := (hpow _).symm

theorem Bytes.toNat_minimal (n : Nat) : toNat (minimal n) = n := by
  have hlt : n < 256 ^ max 1 (widthOf n) := by
    by_cases hn : n = 0
    · simp [hn, widthOf]
    · have hwidth : 0 < widthOf n := by simp [widthOf, hn]
      have hbound := (RsaKey.modulus_bounds (k := ⟨n, 0, none⟩) hwidth).2
      rwa [Nat.max_eq_right hwidth]
  exact toNat_ofNat hlt

theorem Rsa.decrypt?_encrypt {k : RsaKey} {s : RsaSecret} {h : HashId} {message ciphertext : Bytes}
    {e e' : Entropy} (hs : k.secret = some s) (hk : k.Inverts)
    (hencrypt : encrypt k h message e = (.ok ciphertext, e')) :
    decrypt? k s h ciphertext = some message := by
  obtain ⟨seed, e₁, hseed, hencrypt⟩ := Draw.bind_eq_ok.1 hencrypt
  cases hblock : oaepBlock? h k.width seed message with
  | none =>
    simp only [hblock] at hencrypt
    cases hencrypt
  | some block =>
    simp only [hblock] at hencrypt
    cases hencrypt
    have hseedLength : seed.length = h.size := by
      cases hseed
      simp [Entropy.take]
    have hroom : message.length + 2 * h.size + 2 ≤ k.width := by
      simp only [oaepBlock?] at hblock
      split at hblock
      · cases hblock
      · omega
    obtain ⟨hback, hlength, hhead⟩ := oaepMessage?_oaepBlock? hseedLength hblock
    obtain ⟨hlow, hhigh⟩ := RsaKey.modulus_bounds (k := k) (by omega)
    -- The zero byte in front keeps the number below the modulus.
    have hnumber : Bytes.toNat block < k.modulus := by
      cases block with
      | nil => simp at hhead
      | cons b rest =>
        simp only [List.head?_cons, Option.some.injEq] at hhead
        subst hhead
        have hrest := Bytes.toNat_lt rest
        have hlen : rest.length = k.width - 1 := by
          rw [List.length_cons] at hlength
          omega
        rw [hlen] at hrest
        rw [Bytes.toNat_cons, UInt8.toNat_zero, Nat.zero_mul, Nat.zero_add]
        omega
    have hpublic := RsaKey.applyPublic_lt (k := k) (by omega) (Bytes.toNat block)
    have hcipher : Bytes.toNat (Bytes.ofNat k.width (k.applyPublic (Bytes.toNat block))) =
        k.applyPublic (Bytes.toNat block) := Bytes.toNat_ofNat (by omega)
    have hplain := hk s hs _ hnumber
    rw [decrypt?, hcipher, if_neg (by rw [Bytes.length_ofNat]; omega), hplain]
    simp only
    rw [← hlength, Bytes.ofNat_toNat, hback]

end TokenSeal
