import TokenSeal.Proofs.KeyExchange
import TokenSeal.Proofs.Resolution

/-! New keys. A size that an algorithm does not take is refused before anything is drawn, and a key
that comes out fits the algorithm in all that it is asked for later: by the factory that binds it and
by the search that chooses it. -/

namespace TokenSeal

/-! ### Sizes of the built-in algorithms -/

theorem Algorithm.admits_defaultBits {a : Algorithm} (ha : a ∈ builtin) :
    a.Admits a.defaultBits := by
  have hall : ∀ a ∈ builtin, a.isLegalSize a.defaultBits = true := by decide
  exact isLegalSize_iff.1 (hall a ha)

theorem Algorithm.sizes_of_ne_direct {a : Algorithm} (ha : a ∈ builtin) (hne : a ≠ direct) :
    a.keySizes ≠ [] ∧ ∀ s ∈ a.keySizes, s.least % 8 = 0 ∧ s.step % 8 = 0 ∧
      (a.keyType = .none → s = .exact 0) ∧ (a.keyType ≠ .none → 0 < s.least) := by
  have hall : ∀ a ∈ builtin, a ≠ direct →
      a.keySizes ≠ [] ∧ ∀ s ∈ a.keySizes, s.least % 8 = 0 ∧ s.step % 8 = 0 ∧
        (a.keyType = .none → s = .exact 0) ∧ (a.keyType ≠ .none → 0 < s.least) := by decide
  exact hall a ha hne

theorem Algorithm.ne_direct {a : Algorithm} (h : a.keyType ≠ .symmetric) : a ≠ direct := by
  rintro rfl
  exact h rfl

/-- Only a key that is shared directly can have a size that is not in whole bytes. -/
theorem Algorithm.Admits.whole {a : Algorithm} {bits : Nat} (h : a.Admits bits)
    (ha : a ∈ builtin) (hne : a ≠ direct) :
    bits % 8 = 0 ∧ (a.keyType = .none → bits = 0) ∧ (a.keyType ≠ .none → 0 < bits) := by
  obtain ⟨hlisted, hsizes⟩ := sizes_of_ne_direct ha hne
  obtain hnone | ⟨s, hs, steps, hbits, hmost⟩ := h
  · exact absurd hnone hlisted
  · obtain ⟨hleast, hstep, hkeyless, hkeyed⟩ := hsizes s hs
    refine ⟨?_, fun ht => ?_, fun ht => ?_⟩
    · have hwhole : steps * s.step % 8 = 0 := by rw [Nat.mul_mod, hstep, Nat.mul_zero, Nat.zero_mod]
      omega
    · rw [hkeyless ht] at hmost
      exact Nat.le_zero.1 hmost
    · have hpos := hkeyed ht
      omega

/-! ### Drawing -/

theorem Rsa.findKey_eq_ok {bits fuel : Nat} {k : RsaKey} {e e' : Entropy}
    (h : findKey bits fuel e = (.ok k, e')) : k.bitLength = bits ∧ k.isPrivate = true := by
  induction fuel generalizing e with
  | zero => cases h
  | succ fuel ih =>
    obtain ⟨p, e₁, -, h⟩ := Draw.bind_eq_ok.1 h
    obtain ⟨q, e₂, -, h⟩ := Draw.bind_eq_ok.1 h
    cases hd : Modular.inverse? publicExponent ((p - 1) * (q - 1)) with
    | none =>
      simp only [hd] at h
      exact ih h
    | some d =>
      simp only [hd] at h
      split at h
      · exact ih h
      · next hlength =>
        obtain ⟨hk, -⟩ := Draw.ofExcept_eq_ok.1 h
        obtain ⟨rfl, hvalid⟩ := RsaKey.ofPrivate_eq_ok.1 hk
        have hlimits := hvalid.limits
        -- The modulus of zero, which has no bits, is even and never passes as a modulus.
        have hmodulus : p * q ≠ 0 := by
          intro hzero
          simp [RsaKey.checkPublic, hzero, publicExponent] at hlimits
        rw [ne_eq, not_not] at hlength
        exact ⟨by rw [RsaKey.bitLength, if_neg hmodulus, hlength], rfl⟩

theorem Rsa.generate_eq_ok {bits : Nat} {k : RsaKey} {e e' : Entropy}
    (h : generate bits e = (.ok k, e')) : k.bitLength = bits ∧ k.isPrivate = true := by
  unfold generate at h
  split at h
  · cases h
  · exact findKey_eq_ok h

theorem CurveId.bits_of_ofBits? {c : CurveId} {bits : Nat} (h : ofBits? bits = some c) :
    c.bits = bits := by
  have hfound := List.find?_some h
  exact of_decide_eq_true hfound

theorem KeyUsage.permits_of_ofFamily? {family : Family} {u : KeyUsage}
    (h : ofFamily? family = some u) : u.permits family = true := by
  cases family <;> cases h <;> rfl

theorem KeyUsage.exists_ofFamily? {family : Family} (h : family ≠ .compression) :
    ∃ u, ofFamily? family = some u ∧ u.permits family = true := by
  cases family with
  | compression => exact absurd rfl h
  | _ => exact ⟨_, rfl, rfl⟩

namespace SecretKey

theorem isPrivate_of_drawEcKey {c : CurveId} {fuel : Nat} {k : EcKey} {e e' : Entropy}
    (h : drawEcKey c fuel e = (.ok k, e')) : k.isPrivate = true := by
  induction fuel generalizing e with
  | zero => cases h
  | succ fuel ih =>
    obtain ⟨bytes, e₁, -, h⟩ := Draw.bind_eq_ok.1 h
    cases hk : EcKey.ofNat? c (Bytes.toNat bytes) with
    | none =>
      simp only [hk] at h
      exact ih h
    | some k' =>
      simp only [hk] at h
      cases h
      rw [EcKey.isPrivate, EcKey.secret_of_ofNat? hk]
      rfl

/-- What a new key is made of. -/
structure Drawn (a : Algorithm) (bits : Nat) (m : KeyMaterial) : Prop where
  bare : m.effective = m
  type : m.keyType = a.keyType
  isPrivate : m.isPrivate = decide (a.keyType ≠ .none)
  length : m.bitLength = bits
  whole : bits % 8 = 0

theorem drawn_of_generateMaterial {a : Algorithm} {bits : Nat} {m : KeyMaterial} {e e' : Entropy}
    (ha : a ∈ Algorithm.builtin) (hbits : a.Admits bits)
    (h : generateMaterial a bits e = (.ok m, e')) : Drawn a bits m := by
  have hadmitted : a.keyType ≠ .symmetric → bits % 8 = 0 ∧ (a.keyType = .none → bits = 0) := by
    intro hne
    obtain ⟨hwhole, hkeyless, -⟩ := hbits.whole ha (Algorithm.ne_direct hne)
    exact ⟨hwhole, hkeyless⟩
  cases ht : a.keyType with
  | none =>
    obtain ⟨hwhole, hkeyless⟩ := hadmitted (by simp [ht])
    simp only [generateMaterial, ht] at h
    cases h
    exact ⟨rfl, ht.symm, by rw [ht]; rfl, (hkeyless ht).symm, hwhole⟩
  | symmetric =>
    simp only [generateMaterial, ht] at h
    split at h
    · cases h
    · next hsize =>
      obtain ⟨bytes, e₁, hbytes, h⟩ := Draw.bind_eq_ok.1 h
      cases hbytes
      cases h
      have hmod : bits % 8 = 0 := by omega
      refine ⟨rfl, ht.symm, by rw [ht]; rfl, ?_, hmod⟩
      have hlength : (e.take (bits / 8)).length = bits / 8 := by simp [Entropy.take]
      simp only [KeyMaterial.bitLength, KeyMaterial.effective, hlength]
      omega
  | rsa =>
    have hwhole := (hadmitted (by simp [ht])).1
    simp only [generateMaterial, ht] at h
    obtain ⟨k, e₁, hk, h⟩ := Draw.bind_eq_ok.1 h
    cases h
    obtain ⟨hlength, hprivate⟩ := Rsa.generate_eq_ok (Draw.mapError_eq_ok.1 hk)
    exact ⟨rfl, ht.symm, by rw [ht]; exact hprivate, hlength, hwhole⟩
  | ecc =>
    have hwhole := (hadmitted (by simp [ht])).1
    simp only [generateMaterial, ht] at h
    cases hc : CurveId.ofBits? bits with
    | none =>
      simp only [hc] at h
      cases h
    | some c =>
      simp only [hc] at h
      obtain ⟨k, e₁, hk, h⟩ := Draw.bind_eq_ok.1 h
      cases h
      have hcurve : k.curve.bits = bits := by
        rw [curve_of_drawEcKey hk, CurveId.bits_of_ofBits? hc]
      exact ⟨rfl, ht.symm, by rw [ht]; exact isPrivate_of_drawEcKey hk, hcurve, hwhole⟩
  | certificate =>
    simp only [generateMaterial, ht] at h
    cases h

theorem generate_eq_ok {id : Option String} {a : Algorithm} {hint : Option Nat} {k : SecretKey}
    {e e' : Entropy} :
    generate id a hint e = (.ok k, e') ↔ ∃ bits m, generatedBits a hint = .ok bits ∧
      generateMaterial a bits e = (.ok m, e') ∧
      k = make id m { algorithm := some a.code, usage := KeyUsage.ofFamily? a.family } := by
  constructor
  · intro h
    obtain ⟨bits, hbits, h⟩ := Draw.ofExcept_bind_eq_ok.1 h
    obtain ⟨m, e₁, hm, h⟩ := Draw.bind_eq_ok.1 h
    cases h
    exact ⟨bits, m, hbits, hm, rfl⟩
  · rintro ⟨bits, m, hbits, hm, rfl⟩
    exact Draw.ofExcept_bind_eq_ok.2 ⟨bits, hbits, Draw.bind_eq_ok.2 ⟨m, e', hm, rfl⟩⟩

theorem generatedBits_eq_ok {a : Algorithm} {hint : Option Nat} {bits : Nat}
    (ha : a ∈ Algorithm.builtin) (h : generatedBits a hint = .ok bits) :
    bits = hint.getD a.defaultBits ∧ a.Admits bits := by
  cases hint with
  | none =>
    cases h
    exact ⟨rfl, Algorithm.admits_defaultBits ha⟩
  | some hinted =>
    simp only [generatedBits] at h
    split at h
    · next hlegal =>
      cases h
      exact ⟨rfl, Algorithm.isLegalSize_iff.1 hlegal⟩
    · cases h

theorem generate_of_not_admits {id : Option String} {a : Algorithm} {bits : Nat} (e : Entropy)
    (h : ¬ a.Admits bits) :
    generate id a (some bits) e = (.error (.invalidKeySize a.code bits), e) := by
  rw [← Algorithm.isLegalSize_iff] at h
  rw [generate, generatedBits, if_neg h, Draw.ofExcept_error_bind]

theorem generate_direct {id : Option String} {bits : Nat} (e : Entropy)
    (h : bits = 0 ∨ bits % 8 ≠ 0) :
    generate id .direct (some bits) e = (.error (.invalidKeySize "dir" bits), e) := by
  have hbits : generatedBits .direct (some bits) = .ok bits := rfl
  have hmaterial : generateMaterial .direct bits e =
      (.error (.invalidKeySize Algorithm.direct.code bits), e) := by
    simp only [generateMaterial, Algorithm.direct, if_pos h, Draw.throw_apply]
  rw [generate, hbits, Draw.ofExcept_ok_bind, Draw.bind_error hmaterial]
  rfl

/-! ### Keys that fit -/

/-- The key has all that is asked of a key for the algorithm, and hints that speak for it. -/
structure MadeFor (k : SecretKey) (id : Option String) (a : Algorithm) (bits : Nat) : Prop where
  id : k.id = id
  material : ∃ m, k.read = .ok m ∧ m.bitLength = bits
  sizeBits : k.sizeBits = .ok bits
  keyType : k.keyType = .ok a.keyType
  effectiveType : k.effectiveType = .ok a.keyType
  isPrivate : k.isPrivate = .ok (decide (a.keyType ≠ .none))
  hint : k.metadata.algorithm = some a.code
  usage : a.family ≠ .compression → ∃ u, k.metadata.usage = some u ∧ u.permits a.family = true
  noUsage : a.family = .compression → k.metadata.usage = none
  binds : ∀ f : Factory, a.family = f.family → ∃ b, f.bind k a = .ok b ∧ f.Binds b k a
  candidate : a.keyType ≠ .none → ∀ keys, k ∈ keys → ∀ now kid, kid = none ∨ kid = k.id →
    k ∈ candidates a keys ⟨kid, .encode now⟩

theorem Drawn.madeFor {a : Algorithm} {bits : Nat} {m : KeyMaterial} (h : Drawn a bits m)
    (hbits : a.Admits bits) (id : Option String) :
    (make id m { algorithm := some a.code, usage := KeyUsage.ofFamily? a.family }).MadeFor
      id a bits := by
  have hsize : m.sizeBits = bits := by
    have hwhole := h.whole
    rw [m.sizeBits_eq, h.length]
    omega
  have heffective : m.effective.keyType = a.keyType := by rw [h.bare, h.type]
  have hadmits : a.Admits m.sizeBits := by rwa [hsize]
  refine ⟨rfl, ⟨m, rfl, h.length⟩, congrArg _ hsize, congrArg _ h.type, congrArg _ heffective,
    congrArg _ h.isPrivate, rfl, KeyUsage.exists_ofFamily?, fun hf => ?_, fun f hf => ?_, ?_⟩
  · rw [hf]
    rfl
  · exact Factory.bind_of_admits hf rfl heffective hadmits
  · intro hkeyed keys hmem now kid hkid
    rw [candidates_of_keyed hkeyed, List.mem_filter, isCandidate_iff_fits]
    refine ⟨hmem, rfl, heffective, fun name hname => ?_, fun now' hnone hpurpose => ?_⟩
    · obtain hkid | hkid := hkid
      · rw [hkid] at hname
        cases hname
      · exact hkid.symm.trans hname
    · exact ⟨by rintro t ⟨⟩, by rintro t ⟨⟩, fun u hu =>
        KeyUsage.permits_iff.1 (KeyUsage.permits_of_ofFamily? hu)⟩

theorem exists_generate {id : Option String} {a : Algorithm} {hint : Option Nat} {bits : Nat}
    (ha : a ∈ Algorithm.builtin) (ht : a.keyType = .none ∨ a.keyType = .symmetric)
    (hbits : generatedBits a hint = .ok bits) (hdirect : a = .direct → 0 < bits ∧ bits % 8 = 0)
    (e : Entropy) : ∃ k e', generate id a hint e = (.ok k, e') := by
  obtain ⟨m, e', hm⟩ : ∃ m e', generateMaterial a bits e = (.ok m, e') := by
    obtain ht | ht := ht
    · exact ⟨.none, e, by simp only [generateMaterial, ht, Draw.pure_apply]⟩
    · have hwhole : 0 < bits ∧ bits % 8 = 0 := by
        by_cases hne : a = .direct
        · exact hdirect hne
        · obtain ⟨hmod, -, hpos⟩ := (generatedBits_eq_ok ha hbits).2.whole ha hne
          exact ⟨hpos (by simp [ht]), hmod⟩
      have hgood : ¬ (bits = 0 ∨ bits % 8 ≠ 0) := by omega
      refine ⟨.symmetric (e.take (bits / 8)), e.advance (bits / 8), ?_⟩
      simp only [generateMaterial, ht, if_neg hgood]
      rfl
  exact ⟨_, e', generate_eq_ok.2 ⟨bits, m, hbits, hm, rfl⟩⟩

/-- A size that is not legal is refused with nothing drawn, and so is a size that a directly shared
key cannot have. A key that comes out has the size asked for, or else the default size, and fits its
algorithm; where there are no primes and no scalars to look for, a good size always gives one. -/
theorem generate_fits {a : Algorithm} (ha : a ∈ Algorithm.builtin) (id : Option String)
    (hint : Option Nat) (e : Entropy) :
    (∀ bits, hint = some bits →
      (¬ a.Admits bits ∨ (a = .direct ∧ (bits = 0 ∨ bits % 8 ≠ 0))) →
        generate id a hint e = (.error (.invalidKeySize a.code bits), e)) ∧
    (∀ k e', generate id a hint e = (.ok k, e') → k.MadeFor id a (hint.getD a.defaultBits)) ∧
    ((a.keyType = .none ∨ a.keyType = .symmetric) →
      (∀ bits, hint = some bits →
        a.Admits bits ∧ (a = .direct → 0 < bits ∧ bits % 8 = 0)) →
          ∃ k e', generate id a hint e = (.ok k, e')) := by
  refine ⟨?_, ?_, ?_⟩
  · rintro bits rfl (hsize | ⟨rfl, hsize⟩)
    · exact generate_of_not_admits e hsize
    · exact generate_direct e hsize
  · intro k e' h
    obtain ⟨bits, m, hbits, hm, rfl⟩ := generate_eq_ok.1 h
    obtain ⟨rfl, hadmits⟩ := generatedBits_eq_ok ha hbits
    exact (drawn_of_generateMaterial ha hadmits hm).madeFor hadmits id
  · intro ht hgood
    cases hint with
    | none => exact exists_generate ha ht rfl (by rintro rfl; decide) e
    | some bits =>
      obtain ⟨hadmits, hdirect⟩ := hgood bits rfl
      have hbits : generatedBits a (some bits) = .ok bits :=
        if_pos (Algorithm.isLegalSize_iff.2 hadmits)
      exact exists_generate ha ht hbits hdirect e

/-- Twelve bits are refused for a directly shared key though any size of it is legal, and sixteen
give a key that is found for encrypting at any time. -/
theorem generate_fits_direct :
    let e := Entropy.scrambled 0
    generate (some "k") .direct (some 12) e = (.error (.invalidKeySize "dir" 12), e) ∧
    ∃ k e', generate (some "k") .direct (some 16) e = (.ok k, e') ∧ k.sizeBits = .ok 16 ∧
      ∀ now, k ∈ candidates .direct [k] ⟨none, .encode now⟩ := by
  intro e
  have hdirect : Algorithm.direct ∈ Algorithm.builtin := by decide
  obtain ⟨hrefused, -, -⟩ := generate_fits hdirect (some "k") (some 12) e
  obtain ⟨-, hmade, hexists⟩ := generate_fits hdirect (some "k") (some 16) e
  obtain ⟨k, e', hk⟩ := hexists (.inr rfl) (by rintro bits ⟨⟩; exact ⟨.inl rfl, by decide⟩)
  have hfits := hmade k e' hk
  refine ⟨hrefused 12 rfl (.inr ⟨rfl, by decide⟩), k, e', hk, hfits.sizeBits, fun now => ?_⟩
  exact hfits.candidate (by decide) [k] List.mem_cons_self now none (.inl rfl)

end SecretKey

end TokenSeal
