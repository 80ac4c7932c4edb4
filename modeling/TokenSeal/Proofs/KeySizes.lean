import TokenSeal.Binding.Compressor
import TokenSeal.Binding.KeyWrapper
import TokenSeal.Binding.Sealer
import TokenSeal.Proofs.Binding

/-! Which sizes of keys can be bound. The size of a key is counted in whole bytes, and a part of a
byte counts as a whole one; only the moduli of RSA keys have such parts. -/

namespace TokenSeal

/-! ### Legal sizes -/

/-- Some size of one of the ranges, or any size if there are none. -/
def Algorithm.Admits (a : Algorithm) (bits : Nat) : Prop :=
  a.keySizes = [] ∨ ∃ s ∈ a.keySizes, ∃ steps, bits = s.least + steps * s.step ∧ bits ≤ s.most

theorem KeySizes.contains_iff {s : KeySizes} {bits : Nat} :
    s.contains bits = true ↔ ∃ steps, bits = s.least + steps * s.step ∧ bits ≤ s.most := by
  by_cases hout : bits < s.least ∨ s.most < bits
  · simp only [contains, hout, if_true, Bool.false_eq_true, false_iff, not_exists, not_and]
    intro steps hbits
    have hleast : s.least ≤ bits := hbits ▸ Nat.le_add_right _ _
    omega
  · have hin : s.least ≤ bits ∧ bits ≤ s.most := by omega
    by_cases hstep : s.step = 0
    · simp [contains, hout, hstep, hin.2]
    · simp only [contains, hout, hstep, if_false, decide_eq_true_eq, hin.2, and_true]
      rw [← Nat.dvd_iff_mod_eq_zero]
      constructor
      · rintro ⟨steps, hsteps⟩
        exact ⟨steps, by rw [Nat.mul_comm, ← hsteps]; omega⟩
      · rintro ⟨steps, hsteps⟩
        exact ⟨steps, by rw [Nat.mul_comm]; omega⟩

theorem Algorithm.isLegalSize_iff {a : Algorithm} {bits : Nat} :
    a.isLegalSize bits = true ↔ a.Admits bits := by
  simp only [isLegalSize, Admits, Bool.or_eq_true, List.isEmpty_iff, List.any_eq_true,
    KeySizes.contains_iff]

/-! ### What counts -/

/-- The bits of secret bytes, of the modulus of an RSA key or of a curve. -/
def KeyMaterial.bitLength (m : KeyMaterial) : Nat :=
  match m.effective with
  | .symmetric bytes => 8 * bytes.length
  | .pair (.rsa k) => k.bitLength
  | .pair (.ec k) => k.curve.bits
  | _ => 0

theorem RsaKey.width_eq (k : RsaKey) : k.width = (k.bitLength + 7) / 8 := by
  unfold width Bytes.widthOf bitLength
  split <;> omega

theorem CurveId.bits_eq (c : CurveId) : c.bits = 8 * c.width := by
  cases c <;> rfl

namespace KeyMaterial

theorem sizeBits_pair (p : KeyPair) : p.sizeBits = 8 * ((bitLength (.pair p) + 7) / 8) := by
  cases p with
  | rsa k => exact congrArg (8 * ·) k.width_eq
  | ec k =>
    have hbits := k.curve.bits_eq
    simp only [KeyPair.sizeBits, bitLength, effective]
    omega

theorem sizeBits_eq (m : KeyMaterial) : m.sizeBits = 8 * ((m.bitLength + 7) / 8) := by
  cases m with
  | none => rfl
  | symmetric bytes =>
    simp only [sizeBits, bitLength, effective]
    omega
  | pair p => exact sizeBits_pair p
  | certificate der p => exact sizeBits_pair p

/-- Only a modulus can end within a byte. -/
theorem bitLength_mod (m : KeyMaterial) (h : ∀ k, m.effective ≠ .pair (.rsa k)) :
    m.bitLength % 8 = 0 := by
  unfold bitLength
  split
  · omega
  · next k hk => exact absurd hk (h k)
  · next k hk => exact k.curve.bits_eq ▸ Nat.mul_mod_right _ _
  · rfl

theorem bitLength_of_rsa {m : KeyMaterial} {k : RsaKey} (h : m.effective = .pair (.rsa k)) :
    m.bitLength = k.bitLength := by
  simp only [bitLength, h]

end KeyMaterial

theorem SecretKey.bits_of_material {k : SecretKey} {m : KeyMaterial} (h : k.material = some m) :
    k.profile.bits = 8 * ((m.bitLength + 7) / 8) := by
  rw [k.profile_eq m h]
  exact m.sizeBits_eq

theorem SecretKey.effective_of_material {k : SecretKey} {m : KeyMaterial}
    (h : k.material = some m) : k.profile.effective = m.effective.keyType := by
  rw [k.profile_eq m h]
  rfl

/-! ### Binding -/

/-- The size decides, and if it is not legal it is what is told. -/
def SizeDecides {β : Type} (x : Except Fault β) (a : Algorithm) (bits : Nat) : Prop :=
  (a.Admits bits ∧ ∃ b, x = .ok b) ∨ (¬ a.Admits bits ∧ x = .error (.invalidKeySize a.code bits))

section

variable {k : SecretKey} {a : Algorithm}

theorem sizeDecides_checkBinding {β : Type} {family : Family} (hf : a.family = family)
    (hk : k.isDisposed = false) (ht : k.profile.effective = a.keyType) (b : β) :
    SizeDecides (checkBinding family k a >>= fun _ => .ok b) a k.profile.bits := by
  rw [checkBinding_of_live hf hk ht, SizeDecides, ← Algorithm.isLegalSize_iff]
  by_cases hs : a.isLegalSize k.profile.bits = true
  · exact .inl ⟨hs, b, by rw [if_pos hs, ok_bind]⟩
  · exact .inr ⟨hs, by rw [if_neg hs, error_bind]⟩

theorem Signer.sizeDecides_bind (hf : a.family = .signature) (hk : k.isDisposed = false)
    (ht : k.profile.effective = a.keyType) : SizeDecides (bind k a) a k.profile.bits := by
  cases hm : a.method with
  | signature m =>
    simpa only [bind, hm, pure_eq_ok] using sizeDecides_checkBinding hf hk ht (Signer.mk k a m _)
  | _ => simp [Algorithm.family, hm, Method.family] at hf

theorem Sealer.sizeDecides_bind (hf : a.family = .contentEncryption) (hk : k.isDisposed = false)
    (ht : k.profile.effective = a.keyType) : SizeDecides (bind k a) a k.profile.bits := by
  cases hm : a.method with
  | contentEncryption c =>
    simpa only [bind, hm, pure_eq_ok] using sizeDecides_checkBinding hf hk ht (Sealer.mk k a c)
  | _ => simp [Algorithm.family, hm, Method.family] at hf

theorem KeyWrapper.sizeDecides_bind (limits : PasswordLimits) (hf : a.family = .keyManagement)
    (hk : k.isDisposed = false) (ht : k.profile.effective = a.keyType) :
    SizeDecides (bind limits k a) a k.profile.bits := by
  cases hm : a.method with
  | keyManagement m =>
    simpa only [bind, hm, pure_eq_ok] using
      sizeDecides_checkBinding hf hk ht (KeyWrapper.mk k a m limits {})
  | _ => simp [Algorithm.family, hm, Method.family] at hf

theorem Compressor.sizeDecides_bind (limit : Nat) (hf : a.family = .compression)
    (hk : k.isDisposed = false) (ht : k.profile.effective = a.keyType) :
    SizeDecides (bind limit k a) a k.profile.bits := by
  cases hm : a.method with
  | compression c =>
    simpa only [bind, hm, pure_eq_ok] using
      sizeDecides_checkBinding hf hk ht (Compressor.mk a c limit)
  | _ => simp [Algorithm.family, hm, Method.family] at hf

end

/-! ### RSA -/

theorem Algorithm.keySizes_of_rsa {a : Algorithm} (h : a ∈ builtin) (ht : a.keyType = .rsa) :
    a.keySizes = [rsaSizes] := by
  have hall : ∀ a ∈ builtin, a.keyType = .rsa → a.keySizes = [rsaSizes] := by
    simp [builtin, signatures, contentCiphers, keyManagement, compressions, unsecured, hmac,
      rsaSignature, ecdsa, cipher, direct, wrapping, agreement, password]
  exact hall a h ht

/-- Seven bits may be missing from the least size. -/
theorem Algorithm.admits_rsa {a : Algorithm} (h : a ∈ builtin) (ht : a.keyType = .rsa)
    (bits : Nat) : a.Admits (8 * ((bits + 7) / 8)) ↔ 2041 ≤ bits ∧ bits ≤ 16384 := by
  rw [Admits, keySizes_of_rsa h ht]
  simp only [List.cons_ne_self, false_or, List.mem_singleton, exists_eq_left, rsaSizes]
  constructor
  · rintro ⟨steps, hsteps, hmost⟩
    omega
  · intro hbits
    exact ⟨(bits + 7) / 8 - 256, by omega, by omega⟩

/-- A short RSA key suits no algorithm that comes with the library. -/
theorem SecretKey.not_suits_of_short {k : SecretKey} {m : KeyMaterial} {r : RsaKey}
    (hk : k.material = some m) (hr : m.effective = .pair (.rsa r)) (hshort : r.bitLength < 2041)
    {a : Algorithm} (ha : a ∈ Algorithm.builtin) : ¬ k.Suits a := by
  rintro ⟨-, htype, hlegal⟩
  have hrsa : a.keyType = .rsa := by rw [← htype, effective_of_material hk, hr]; rfl
  rw [bits_of_material hk, Algorithm.isLegalSize_iff, Algorithm.admits_rsa ha hrsa,
    KeyMaterial.bitLength_of_rsa hr] at hlegal
  omega

/-- A live key can be bound to an algorithm that takes its type if and only if the algorithm admits
its size in whole bytes, and it is told that size if not; this holds of signing, sealing, wrapping
and compressing. The whole bytes are all of the key but for RSA keys with a modulus that ends within
a byte. What comes with the library takes RSA keys of 2041 to 16384 bits, so that shorter ones
neither sign nor verify and neither wrap nor unwrap. -/
theorem sizeDecides_of_live {k : SecretKey} {m : KeyMaterial} (hk : k.material = some m) :
    let bits := 8 * ((m.bitLength + 7) / 8)
    (∀ a : Algorithm, a.keyType = m.effective.keyType →
      (a.family = .signature → SizeDecides (Signer.bind k a) a bits) ∧
      (a.family = .contentEncryption → SizeDecides (Sealer.bind k a) a bits) ∧
      (a.family = .keyManagement → ∀ limits, SizeDecides (KeyWrapper.bind limits k a) a bits) ∧
      (a.family = .compression → ∀ limit, SizeDecides (Compressor.bind limit k a) a bits)) ∧
    (m.bitLength % 8 = 0 → bits = m.bitLength) ∧
    (m.bitLength % 8 ≠ 0 → ∃ r, m.effective = .pair (.rsa r)) ∧
    ∀ r, m.effective = .pair (.rsa r) →
      (∀ a ∈ Algorithm.builtin, a.keyType = .rsa →
        (a.Admits bits ↔ 2041 ≤ r.bitLength ∧ r.bitLength ≤ 16384)) ∧
      (r.bitLength < 2041 → ∀ a ∈ Algorithm.builtin, (∀ s, Signer.bind k a ≠ .ok s) ∧
        ∀ limits w, KeyWrapper.bind limits k a ≠ .ok w) := by
  intro bits
  have hlive : k.isDisposed = false := by simp [SecretKey.isDisposed, hk]
  have hbits : k.profile.bits = bits := SecretKey.bits_of_material hk
  refine ⟨fun a ha => ?_, fun hwhole => by omega, fun hpart => ?_,
    fun r hr => ⟨fun a ha ht => ?_, fun hshort a ha => ⟨fun s hs => ?_, fun limits w hw => ?_⟩⟩⟩
  · have ht : k.profile.effective = a.keyType := (SecretKey.effective_of_material hk).trans ha.symm
    rw [← hbits]
    exact ⟨fun hf => Signer.sizeDecides_bind hf hlive ht,
      fun hf => Sealer.sizeDecides_bind hf hlive ht,
      fun hf limits => KeyWrapper.sizeDecides_bind limits hf hlive ht,
      fun hf limit => Compressor.sizeDecides_bind limit hf hlive ht⟩
  · by_contra hnone
    exact hpart (m.bitLength_mod fun r hr => hnone ⟨r, hr⟩)
  · rw [← KeyMaterial.bitLength_of_rsa hr]
    exact Algorithm.admits_rsa ha ht m.bitLength
  · obtain ⟨-, -, hsuits, -⟩ := Signer.bind_eq_ok.1 hs
    exact SecretKey.not_suits_of_short hk hr hshort ha hsuits
  · obtain ⟨-, -, hsuits, -⟩ := KeyWrapper.bind_eq_ok.1 hw
    exact SecretKey.not_suits_of_short hk hr hshort ha hsuits

/-- A public key whose modulus has so many bits, all zero but the first and the last. -/
def sparseKey (bits : Nat) : RsaKey := ⟨Nat.pow 2 (bits - 1) + 1, 65537, none⟩

def sparseAlgorithm : Algorithm := .rsaSignature "RS256" (.rsaDigest .sha256)

theorem sizeDecides_of_live_sparse :
    let k : SecretKey := .make none (.pair (.rsa (sparseKey 2040))) {}
    k.material = some (.pair (.rsa (sparseKey 2040))) ∧ (sparseKey 2040).bitLength = 2040 ∧
      Signer.bind k sparseAlgorithm = .error (.invalidKeySize "RS256" 2040) ∧
      ∀ a ∈ Algorithm.builtin, ∀ s, Signer.bind k a ≠ .ok s := by
  intro k
  have hlength : (sparseKey 2040).bitLength = 2040 := by decide +kernel
  have hk : k.material = some (.pair (.rsa (sparseKey 2040))) := rfl
  obtain ⟨hdecides, -, -, hrsa⟩ := sizeDecides_of_live hk
  have hsize : (KeyMaterial.pair (.rsa (sparseKey 2040))).bitLength = 2040 := hlength
  have hnot : ¬ sparseAlgorithm.Admits 2040 := by
    rw [← Algorithm.isLegalSize_iff]
    decide
  obtain ⟨hadmits, -⟩ | ⟨-, hrefused⟩ := (hdecides sparseAlgorithm rfl).1 rfl
  · rw [hsize] at hadmits
    exact absurd hadmits hnot
  · rw [hsize] at hrefused
    exact ⟨hk, hlength, hrefused, fun a ha => ((hrsa _ rfl).2 (by rw [hlength]; decide) a ha).1⟩

/-- Seven of the 2048 bits that are asked for are missing, and yet the key verifies. -/
theorem verify_sparse :
    let k : SecretKey := .make none (.pair (.rsa (sparseKey 2041))) {}
    RsaKey.ofPublic (Nat.pow 2 2040 + 1) 65537 = .ok (sparseKey 2041) ∧
      (sparseKey 2041).bitLength = 2041 ∧ sparseAlgorithm ∈ Algorithm.builtin ∧
      sparseAlgorithm.keyType = .rsa ∧ ¬ sparseAlgorithm.Admits 2041 ∧
      ∃ s, Signer.bind k sparseAlgorithm = .ok s ∧
        ∀ data signature, ∃ verdict, s.verify data signature = .ok verdict := by
  intro k
  have hlength : (sparseKey 2041).bitLength = 2041 := by decide +kernel
  have hsize : k.profile.bits = 2048 := by
    have hbits := (KeyMaterial.pair (.rsa (sparseKey 2041))).sizeBits_eq
    rwa [show (KeyMaterial.pair (.rsa (sparseKey 2041))).bitLength = 2041 from hlength] at hbits
  have hsuits : k.Suits sparseAlgorithm := ⟨rfl, rfl, by rw [hsize]; decide⟩
  refine ⟨by decide +kernel, hlength, by decide, rfl, ?_, _,
    Signer.bind_eq_ok.2 ⟨_, rfl, hsuits, rfl⟩, fun data signature => ⟨_, rfl⟩⟩
  rw [← Algorithm.isLegalSize_iff]
  decide

end TokenSeal
