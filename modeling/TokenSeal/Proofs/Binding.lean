import TokenSeal.Binding.Resolve
import TokenSeal.Binding.Signer
import TokenSeal.Proofs.Draw
import TokenSeal.Token.Credentials

/-! What it takes to look up an algorithm, to be a candidate for it and to be bound to it. -/

namespace TokenSeal

/-! ### Algorithms -/

theorem Algorithm.find_eq_ok {all : List Algorithm} {family : Family} {code : String}
    {a : Algorithm} (h : find all family code = .ok a) :
    a ∈ all ∧ a.family = family ∧ a.code = code := by
  unfold find at h
  split at h
  · next b hb =>
    cases h
    have hnamed := List.find?_some hb
    simp only [isNamed, Bool.and_eq_true, decide_eq_true_eq] at hnamed
    exact ⟨List.mem_of_find?_eq_some hb, hnamed⟩
  · cases h

theorem Known.find_eq_ok {known : Known} {family : Family} {code : String} {a : Algorithm}
    (h : known.find family code = .ok a) : a.family = family ∧ a.code = code := by
  obtain ⟨all, _, hfind⟩ := bind_eq_ok.1 h
  exact (Algorithm.find_eq_ok hfind).2

theorem Known.mem_builtin {family : Family} {code : String} {a : Algorithm}
    (h : find (.ok Algorithm.builtin) family code = .ok a) :
    a ∈ Algorithm.builtin ∧ a.family = family := by
  obtain ⟨all, hall, hfind⟩ := bind_eq_ok.1 h
  cases hall
  obtain ⟨hmem, hfamily, -⟩ := Algorithm.find_eq_ok hfind
  exact ⟨hmem, hfamily⟩

theorem Algorithm.mem_of_family {a : Algorithm} (h : a ∈ builtin) :
    (a.family = .contentEncryption → a ∈ contentCiphers) ∧
      (a.family = .keyManagement → a ∈ keyManagement) := by
  have hall : ∀ a ∈ builtin, (a.family = .contentEncryption → a ∈ contentCiphers) ∧
      (a.family = .keyManagement → a ∈ keyManagement) := by
    simp [builtin, signatures, contentCiphers, keyManagement, compressions, unsecured, hmac,
      rsaSignature, ecdsa, cipher, direct, wrapping, agreement, password, family, Method.family]
  exact hall a h

theorem Algorithm.keyType_of_keyManagement {a : Algorithm} (h : a ∈ builtin)
    (hfamily : a.family = .keyManagement) : a.keyType ≠ .none := by
  have hall : ∀ a ∈ keyManagement, a.keyType ≠ .none := by
    simp [keyManagement, direct, wrapping, agreement, password]
  exact hall a ((mem_of_family h).2 hfamily)

theorem Algorithm.method_of_signature {a : Algorithm} (h : a.family = .signature) :
    ∃ m, a.method = .signature m := by
  cases hm : a.method with
  | signature m => exact ⟨m, rfl⟩
  | _ => simp [family, hm, Method.family] at h

/-! ### Keys -/

/-- A live key of the type and a size that an algorithm takes. -/
def SecretKey.Suits (k : SecretKey) (a : Algorithm) : Prop :=
  k.isDisposed = false ∧ k.profile.effective = a.keyType ∧ a.isLegalSize k.profile.bits = true

theorem SecretKey.read_of_live {k : SecretKey} (h : k.isDisposed = false) :
    ∃ m, k.material = some m ∧ k.read = .ok m := by
  cases hm : k.material with
  | none => simp [isDisposed, hm] at h
  | some m => exact ⟨m, rfl, by simp [read, hm]⟩

theorem SecretKey.read_eq_ok {k : SecretKey} {m : KeyMaterial} :
    k.read = .ok m ↔ k.material = some m := by
  unfold read
  cases k.material <;> simp

theorem SecretKey.isDisposed_of_read {k : SecretKey} {m : KeyMaterial} (h : k.read = .ok m) :
    k.isDisposed = false := by
  simp [isDisposed, read_eq_ok.1 h]

/-- The size is looked at last. -/
theorem checkBinding_of_live {family : Family} {k : SecretKey} {a : Algorithm}
    (hf : a.family = family) (hk : k.isDisposed = false)
    (ht : k.profile.effective = a.keyType) :
    checkBinding family k a =
      if a.isLegalSize k.profile.bits then .ok ()
      else .error (.invalidKeySize a.code k.profile.bits) := by
  obtain ⟨m, -, hm⟩ := SecretKey.read_of_live hk
  by_cases hs : a.isLegalSize k.profile.bits = true <;>
    simp [checkBinding, hf, SecretKey.effectiveType, SecretKey.sizeBits, SecretKey.ask, hm,
      Algorithm.accepts, ht, hs]

theorem checkBinding_eq_ok {family : Family} {k : SecretKey} {a : Algorithm} :
    checkBinding family k a = .ok () ↔ a.family = family ∧ k.Suits a := by
  constructor
  · intro h
    by_cases hf : a.family = family
    · cases hr : k.read with
      | error e =>
        simp [checkBinding, hf, SecretKey.effectiveType, SecretKey.ask, hr] at h
      | ok m =>
        by_cases ht : a.keyType = k.profile.effective
        · rw [checkBinding_of_live hf (SecretKey.isDisposed_of_read hr) ht.symm] at h
          by_cases hs : a.isLegalSize k.profile.bits = true
          · exact ⟨hf, SecretKey.isDisposed_of_read hr, ht.symm, hs⟩
          · simp [hs] at h
        · simp [checkBinding, hf, SecretKey.effectiveType, SecretKey.ask, hr, Algorithm.accepts,
            ht] at h
    · simp [checkBinding, hf] at h
  · rintro ⟨hf, hk, ht, hs⟩
    rw [checkBinding_of_live hf hk ht, if_pos hs]

theorem Signer.bind_of_live {k : SecretKey} {a : Algorithm} {m : SignatureMethod}
    (hm : a.method = .signature m) (hk : k.isDisposed = false)
    (ht : k.profile.effective = a.keyType) :
    Signer.bind k a =
      if a.isLegalSize k.profile.bits then .ok ⟨k, a, m, sizeOf k m⟩
      else .error (.invalidKeySize a.code k.profile.bits) := by
  have hf : a.family = .signature := by simp [Algorithm.family, hm, Method.family]
  by_cases hs : a.isLegalSize k.profile.bits = true <;>
    simp [bind, checkBinding_of_live hf hk ht, hm, hs]

theorem Signer.bind_eq_ok {k : SecretKey} {a : Algorithm} {s : Signer} :
    Signer.bind k a = .ok s ↔
      ∃ m, a.method = .signature m ∧ k.Suits a ∧ s = ⟨k, a, m, sizeOf k m⟩ := by
  constructor
  · intro h
    obtain ⟨_, hc, h⟩ := TokenSeal.bind_eq_ok.1 h
    obtain ⟨hf, hk⟩ := checkBinding_eq_ok.1 hc
    obtain ⟨m, hm⟩ := Algorithm.method_of_signature hf
    simp only [hm, pure_eq_ok, Except.ok.injEq] at h
    exact ⟨m, hm, hk, h.symm⟩
  · rintro ⟨m, hm, ⟨hk, ht, hs⟩, rfl⟩
    rw [bind_of_live hm hk ht, if_pos hs]

theorem KeyWrapper.bind_eq_ok {limits : PasswordLimits} {k : SecretKey} {a : Algorithm}
    {w : KeyWrapper} :
    KeyWrapper.bind limits k a = .ok w ↔
      ∃ m, a.method = .keyManagement m ∧ k.Suits a ∧ w = ⟨k, a, m, limits, {}⟩ := by
  constructor
  · intro h
    obtain ⟨_, hc, h⟩ := TokenSeal.bind_eq_ok.1 h
    obtain ⟨hf, hk⟩ := checkBinding_eq_ok.1 hc
    cases hm : a.method with
    | keyManagement m =>
      simp only [hm, pure_eq_ok, Except.ok.injEq] at h
      exact ⟨m, rfl, hk, h.symm⟩
    | _ => simp [Algorithm.family, hm, Method.family] at hf
  · rintro ⟨m, hm, hk, rfl⟩
    have hf : a.family = .keyManagement := by simp [Algorithm.family, hm, Method.family]
    simp [bind, checkBinding_eq_ok.2 ⟨hf, hk⟩, hm]

theorem Sealer.bind_eq_ok {k : SecretKey} {a : Algorithm} {s : Sealer} :
    Sealer.bind k a = .ok s ↔
      ∃ c, a.method = .contentEncryption c ∧ k.Suits a ∧ s = ⟨k, a, c⟩ := by
  constructor
  · intro h
    obtain ⟨_, hc, h⟩ := TokenSeal.bind_eq_ok.1 h
    obtain ⟨hf, hk⟩ := checkBinding_eq_ok.1 hc
    cases hm : a.method with
    | contentEncryption c =>
      simp only [hm, pure_eq_ok, Except.ok.injEq] at h
      exact ⟨c, rfl, hk, h.symm⟩
    | _ => simp [Algorithm.family, hm, Method.family] at hf
  · rintro ⟨c, hm, hk, rfl⟩
    have hf : a.family = .contentEncryption := by simp [Algorithm.family, hm, Method.family]
    simp [bind, checkBinding_eq_ok.2 ⟨hf, hk⟩, hm]

/-! ### Candidates -/

theorem isCandidate_decode {a : Algorithm} {kid : Option String} {k : SecretKey} :
    isCandidate a ⟨kid, .decode⟩ k = true ↔
      k.isDisposed = false ∧ k.profile.effective = a.keyType ∧
        ∀ id, kid = some id → k.id = some id := by
  by_cases hk : k.isDisposed = true
  · simp [isCandidate, hk]
  · by_cases ht : a.keyType = k.profile.effective
    · cases kid <;> simp [isCandidate, hk, Algorithm.accepts, ht]
    · simp [isCandidate, hk, Algorithm.accepts, ht, Ne.symm ht]

theorem effective_of_mem_candidates {a : Algorithm} {keys : List SecretKey} {kid : Option String}
    {k : SecretKey} (h : k ∈ candidates a keys ⟨kid, .decode⟩) :
    k.isDisposed = false ∧ k.profile.effective = a.keyType := by
  by_cases ha : a.keyType = .none
  · simp only [candidates, ha, if_true, List.mem_singleton] at h
    subst h
    exact ⟨rfl, ha.symm⟩
  · simp only [candidates, ha, if_false, List.mem_filter, isCandidate_decode] at h
    exact ⟨h.2.1, h.2.2.1⟩

theorem candidates_perm {a : Algorithm} {keys keys' : List SecretKey} (h : keys.Perm keys')
    (s : KeySelector) : (candidates a keys s).Perm (candidates a keys' s) := by
  by_cases ha : a.keyType = .none
  · simp [candidates, ha]
  · simpa [candidates, ha] using h.filter _

theorem mem_of_selectKey {a : Algorithm} {keys : List SecretKey} {s : KeySelector}
    {k : SecretKey} (h : selectKey a keys s = .ok k) :
    (a.keyType = .none → k = SecretKey.empty) ∧ (a.keyType ≠ .none → k ∈ keys) := by
  unfold selectKey at h
  split at h
  · next k' rest hk =>
    cases h
    have hmem : k ∈ candidates a keys s := by simp [hk]
    constructor
    · intro ha
      simpa [candidates, ha] using hmem
    · intro ha
      simp only [candidates, ha, if_false, List.mem_filter] at hmem
      exact hmem.1
  · cases h

/-- The key is the one given, or one in the collection to choose from. -/
def KeySource.Offers (source : KeySource) (rings : KeyRings) (k : SecretKey) : Prop :=
  match source with
  | .key given => k = given
  | .collection id _ => ∃ keys, rings id = .ok keys ∧ k ∈ keys

/-- Credentials find an algorithm and bind it to a key that they offer, or to the empty key if it
takes none. -/
theorem KeySource.bind_eq_ok {β : Type} {source : KeySource} {rings : KeyRings}
    {make : SecretKey → Algorithm → Except Fault β} {family : Family} {known : Known}
    {code : String} {now : Int} {b : β}
    (h : source.bind rings make family known code now = .ok b) :
    ∃ a k, known.find family code = .ok a ∧ make k a = .ok b ∧
      (a.keyType = .none → k = SecretKey.empty) ∧
        (a.keyType ≠ .none → source.Offers rings k) := by
  cases source with
  | key given =>
    obtain ⟨all, hall, h⟩ := TokenSeal.bind_eq_ok.1 h
    obtain ⟨a, ha, h⟩ := TokenSeal.bind_eq_ok.1 h
    refine ⟨a, _, by rw [Known.find, hall]; exact ha, h, ?_, ?_⟩ <;> intro ht <;> simp [ht, Offers]
  | collection id kid =>
    obtain ⟨keys, hkeys, h⟩ := TokenSeal.bind_eq_ok.1 h
    obtain ⟨all, hall, h⟩ := TokenSeal.bind_eq_ok.1 h
    obtain ⟨a, ha, h⟩ := TokenSeal.bind_eq_ok.1 h
    obtain ⟨k, hk, h⟩ := TokenSeal.bind_eq_ok.1 h
    have hsel := mem_of_selectKey hk
    exact ⟨a, k, by rw [Known.find, hall]; exact ha, h, hsel.1, fun ht => ⟨keys, hkeys, hsel.2 ht⟩⟩

end TokenSeal
