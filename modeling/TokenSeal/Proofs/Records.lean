import TokenSeal.Key.Record
import TokenSeal.Proofs.KeyExchange

/-! A secret that is read from a record can be written to a new one. That is read as the same key
and is not written anew: after one rewriting a record stays as it is. A record holds fewer hints
than a key can have, so a key that was stored is chosen whenever it was before, and more often if
it had times or, being symmetric, a usage. -/

namespace TokenSeal

theorem KeyType.ofName?_name (t : KeyType) : ofName? t.name = some t := by
  cases t <;> rfl

theorem KeyPair.keyType_ne (p : KeyPair) : p.keyType ≠ .none ∧ p.keyType ≠ .symmetric := by
  cases p <;> simp [keyType]

/-! ### Containers -/

theorem Der.portable_of_rsaKey? {info : PrivateKeyInfo} {k : RsaKey} (h : rsaKey? info = some k) :
    (KeyPair.rsa k).Portable := by
  simp only [rsaKey?] at h
  split at h
  · cases h
  · obtain ⟨body, -, h⟩ := Option.bind_eq_some_iff.1 h
    obtain ⟨numbers, -, h⟩ := Option.bind_eq_some_iff.1 h
    split at h
    · next n e d p q _ _ _ =>
      cases hk : RsaKey.ofPrivate n e d [p, q] with
      | error fault => simp [hk, Except.toOption] at h
      | ok k' =>
        obtain rfl : k' = k := by simpa [hk, Except.toOption] using h
        exact KeyPair.portable_of_ofPrivate hk
    · cases h

theorem KeyMaterial.portable_of_ofDer {der : Bytes} {m : KeyMaterial} (h : ofDer der = .ok m) :
    m.Portable := by
  unfold ofDer at h
  split at h
  · next m' hm =>
    cases h
    obtain ⟨info, -, hm⟩ := Option.bind_eq_some_iff.1 hm
    split at hm
    · next k hk =>
      cases hm
      exact .pair (Der.portable_of_rsaKey? hk)
    · obtain ⟨k, -, hm⟩ := Option.bind_eq_some_iff.1 hm
      cases hm
      exact .pair (.ec k)
  · cases h

namespace SecretRecord

/-! ### Reading -/

theorem portable_of_symmetricKey {r : SecretRecord} {declared : KeyType}
    {bytes : Except Fault Bytes} {k : SecretKey} (h : r.symmetricKey declared bytes = .ok k) :
    ∃ m, k.material = some m ∧ m.Portable := by
  unfold symmetricKey at h
  split at h
  · cases h
  · obtain ⟨b, -, rfl⟩ := map_eq_ok.1 h
    exact ⟨_, rfl, .symmetric b⟩

theorem portable_of_jwkKey {r : SecretRecord} {s : ImportedSecret} (h : r.jwkKey = .ok s) :
    ∃ m, s.key.material = some m ∧ m.Portable := by
  unfold jwkKey at h
  split at h
  · cases h
  · obtain ⟨k, hk, h⟩ := bind_eq_ok.1 h
    cases h
    exact SecretKey.portable_of_ofJwk hk

theorem portable_of_containerKey {r : SecretRecord} {k : SecretKey} (h : r.containerKey = .ok k) :
    ∃ m, k.material = some m ∧ m.Portable := by
  obtain ⟨der, -, h⟩ := bind_eq_ok.1 h
  obtain ⟨inner, hinner, h⟩ := bind_eq_ok.1 h
  cases h
  obtain ⟨m, hm, rfl⟩ := map_eq_ok.1 hinner
  exact ⟨m, rfl, KeyMaterial.portable_of_ofDer hm⟩

/-- Whatever a record holds, a key that is read from it can be written. -/
theorem portable_of_toKey {r : SecretRecord} {s : ImportedSecret} (h : r.toKey = .ok s) :
    ∃ m, s.key.material = some m ∧ m.Portable := by
  unfold toKey at h
  split at h
  · cases h
  · obtain ⟨secret, hsecret, h⟩ := bind_eq_ok.1 h
    cases h
    change ∃ m, secret.key.material = some m ∧ m.Portable
    unfold decodeValue at hsecret
    split at hsecret
    · obtain ⟨k, hk, rfl⟩ := map_eq_ok.1 hsecret
      exact portable_of_symmetricKey hk
    · obtain ⟨k, hk, rfl⟩ := map_eq_ok.1 hsecret
      exact portable_of_symmetricKey hk
    · exact portable_of_jwkKey hsecret
    · obtain ⟨k, hk, rfl⟩ := map_eq_ok.1 hsecret
      exact portable_of_containerKey hk
    · cases hsecret

/-! ### Writing -/

theorem ofKey_eq_ok {k : SecretKey} {r : SecretRecord} (h : ofKey k = .ok r) :
    (∃ bytes, k.material = some (.symmetric bytes) ∧ r = ⟨k.id, RecordEncoding.base64url.name,
        k.metadata.algorithm, KeyType.symmetric.name, Base64Url.encode bytes⟩) ∨
      ∃ m j, k.material = some m ∧ m.keyType ≠ .symmetric ∧ k.toJwk true = .ok j ∧
        r = ⟨k.id, RecordEncoding.jwk.name, k.metadata.algorithm, m.keyType.name, j.render⟩ := by
  obtain ⟨m, hread, h⟩ := bind_eq_ok.1 h
  have hm := SecretKey.read_eq_ok.1 hread
  rw [k.profile_eq m hm] at h
  cases m with
  | none => cases h
  | symmetric bytes => exact .inl ⟨bytes, hm, (Except.ok.inj h).symm⟩
  | pair p =>
    obtain ⟨j, hj, h⟩ := bind_eq_ok.1 h
    exact .inr ⟨_, j, hm, p.keyType_ne.2, hj, (Except.ok.inj h).symm⟩
  | certificate der p =>
    obtain ⟨j, hj, h⟩ := bind_eq_ok.1 h
    exact .inr ⟨_, j, hm, by simp [KeyMaterial.keyType], hj, (Except.ok.inj h).symm⟩

theorem exists_ofKey {k : SecretKey} {m : KeyMaterial} (hm : k.material = some m)
    (h : m.Portable) : ∃ r, ofKey k = .ok r := by
  obtain ⟨j, hj⟩ := SecretKey.exists_toJwk hm h
  rw [ofKey, SecretKey.read_eq_ok.2 hm, ok_bind]
  cases h with
  | symmetric bytes => exact ⟨_, rfl⟩
  | pair hp => exact ⟨_, by rw [hj]; rfl⟩
  | certificate der hp => exact ⟨_, by rw [hj]; rfl⟩

theorem toKey_base64url (id algorithm : Option String) (bytes : Bytes) :
    toKey ⟨id, RecordEncoding.base64url.name, algorithm, KeyType.symmetric.name,
      Base64Url.encode bytes⟩ =
        .ok ⟨.make id (.symmetric bytes) { algorithm := algorithm }, false⟩ := by
  have hencoding : RecordEncoding.ofName? RecordEncoding.base64url.name = some .base64url := rfl
  simp only [toKey, KeyType.ofName?_name, decodeValue, hencoding, symmetricKey,
    Base64Url.decode_encode]
  rfl

theorem toKey_jwk {k : SecretKey} {j : Jwk} (t : KeyType) (h : k.toJwk true = .ok j) :
    toKey ⟨k.id, RecordEncoding.jwk.name, k.metadata.algorithm, t.name, j.render⟩ =
      (SecretKey.ofJwk j).map fun key => ⟨key, decide (key.profile.keyType ≠ t)⟩ := by
  obtain ⟨hkid, halg, -⟩ := SecretKey.frame_of_toJwk h
  have hencoding : RecordEncoding.ofName? RecordEncoding.jwk.name = some .jwk := rfl
  have hsame : ∀ name, override name name = name := fun name => Option.or_self
  have hfresh : ∀ name, overrides name name = false := fun name => by simp [overrides]
  simp only [toKey, KeyType.ofName?_name, decodeValue, hencoding, jwkKey, Jwk.ofText?_render,
    ← hkid, ← halg, hsame, hfresh]
  cases SecretKey.ofJwk j with
  | error fault => rfl
  | ok key => simp

end SecretRecord

/-- The metadata that a record of a key holds: no times, and of a symmetric key, which is held as
bare bytes, no usage. -/
def SecretKey.stored (k : SecretKey) : KeyMetadata :=
  { k.metadata.timeless with
    usage := if k.profile.keyType = .symmetric then none else k.metadata.usage }

namespace SecretRecord

theorem toKey_of_ofKey {k : SecretKey} {m : KeyMaterial} {r : SecretRecord}
    (hm : k.material = some m) (hvalid : m.Valid) (h : ofKey k = .ok r) :
    r.toKey = .ok ⟨k.withMetadata k.stored, false⟩ := by
  have hprofile := k.profile_eq m hm
  obtain ⟨bytes, hbytes, rfl⟩ | ⟨m', j, hm', hother, hj, rfl⟩ := ofKey_eq_ok h
  · obtain rfl := Option.some.inj (hm.symm.trans hbytes)
    rw [toKey_base64url, SecretKey.make_eq_withMetadata hm]
    simp [SecretKey.stored, KeyMetadata.timeless, hprofile, KeyMaterial.profile,
      KeyMaterial.keyType]
  · obtain rfl := Option.some.inj (hm.symm.trans hm')
    rw [toKey_jwk _ hj, SecretKey.ofJwk_of_toJwk hm hvalid hj, map_ok]
    simp [SecretKey.stored, KeyMetadata.timeless, SecretKey.withMetadata, hprofile,
      KeyMaterial.profile, hother]

theorem ofKey_stored (k : SecretKey) : ofKey (k.withMetadata k.stored) = ofKey k := by
  have hread : (k.withMetadata k.stored).read = k.read := rfl
  cases hm : k.material with
  | none =>
    have hgone : k.read = .error (.disposed .secretKey) := by rw [SecretKey.read, hm]
    rw [ofKey, ofKey, hread, hgone]
    rfl
  | some m =>
    -- Of other than symmetric keys the usage is stored, so the JSON Web Key is the same.
    have hjwk : m.keyType ≠ .symmetric →
        (k.withMetadata k.stored).toJwk true = k.toJwk true := by
      intro hother
      have hframe : (k.withMetadata k.stored).jwkFrame = k.jwkFrame := by
        simp [SecretKey.jwkFrame, SecretKey.withMetadata, SecretKey.stored, KeyMetadata.timeless,
          k.profile_eq m hm, KeyMaterial.profile, hother]
      rw [SecretKey.toJwk, SecretKey.toJwk, hframe, hread]
    rw [ofKey, ofKey, hread, SecretKey.read_eq_ok.2 hm, ok_bind, ok_bind]
    rcases m with _ | bytes | p | ⟨der, p⟩
    · rfl
    · rfl
    · simp only
      rw [hjwk p.keyType_ne.2]
      rfl
    · simp only
      rw [hjwk (by simp [KeyMaterial.keyType])]
      rfl

theorem exists_toKey_of_ofKey {k : SecretKey} {m : KeyMaterial} (hm : k.material = some m)
    (h : m.Portable) :
    ∃ r, ofKey k = .ok r ∧ r.toKey = .ok ⟨k.withMetadata k.stored, false⟩ := by
  obtain ⟨r, hr⟩ := exists_ofKey hm h
  exact ⟨r, hr, toKey_of_ofKey hm h.valid hr⟩

/-- After one rewriting a record stays as it is, and so does its key. -/
theorem settled_of_toKey {r : SecretRecord} {s : ImportedSecret} (h : r.toKey = .ok s) :
    ∃ r' k', ofKey s.key = .ok r' ∧ r'.toKey = .ok ⟨k', false⟩ ∧ k'.id = s.key.id ∧
      k'.profile = s.key.profile ∧ k'.metadata.algorithm = s.key.metadata.algorithm ∧
      k'.material = s.key.material ∧ ofKey k' = .ok r' := by
  obtain ⟨m, hm, hportable⟩ := portable_of_toKey h
  obtain ⟨r', hr', hback⟩ := exists_toKey_of_ofKey hm hportable
  have hagain : ofKey (s.key.withMetadata s.key.stored) = .ok r' := by rw [ofKey_stored, hr']
  exact ⟨r', _, hr', hback, rfl, rfl, rfl, rfl, hagain⟩

/-- A record of another id and another type than the JSON Web Key in it. -/
theorem settled_of_toKey_stale :
    let r : SecretRecord := ⟨some "a", "jwk", none, "rsa",
      Jwk.render { kty := "oct", kid := some "b", k := SecretKey.bytesText [1, 2, 3] }⟩
    ∃ s, r.toKey = .ok s ∧ s.requiresMigration = true ∧ s.key.id = some "a" ∧
      ∃ r' k', ofKey s.key = .ok r' ∧ r'.toKey = .ok ⟨k', false⟩ ∧ ofKey k' = .ok r' := by
  intro r
  have hread : r.toKey = .ok ⟨.make (some "a") (.symmetric [1, 2, 3]) {}, true⟩ := by
    have htype : KeyType.ofName? "rsa" = some .rsa := rfl
    have hencoding : RecordEncoding.ofName? "jwk" = some .jwk := rfl
    have hk : SecretKey.memberBytes "k" (SecretKey.bytesText [1, 2, 3]) = .ok [1, 2, 3] :=
      SecretKey.memberBytes_eq_ok.2 rfl
    simp only [toKey, r, htype, decodeValue, hencoding, jwkKey, Jwk.ofText?_render,
      SecretKey.ofJwk, SecretKey.bareMaterial, hk]
    rfl
  obtain ⟨r', k', hwrite, hback, -, -, -, -, hagain⟩ := settled_of_toKey hread
  exact ⟨_, hread, rfl, rfl, r', k', hwrite, hback, hagain⟩

end SecretRecord

/-! ### Choosing a stored key -/

/-- What the choice of a key looks at is the same of two keys but for the hints, and neither is the
empty key. -/
structure SecretKey.Stands (k k' : SecretKey) : Prop where
  live : k.isDisposed = false
  live' : k'.isDisposed = false
  id : k'.id = k.id
  effective : k'.profile.effective = k.profile.effective
  held : k.profile.effective ≠ .none

theorem isCandidate_of_stands {k k' : SecretKey} (h : k.Stands k') (a : Algorithm)
    (s : KeySelector) : isCandidate a s k' = isCandidate a s (k.withMetadata k'.metadata) := by
  have hlive : (k.withMetadata k'.metadata).isDisposed = false := h.live
  rw [isCandidate, isCandidate, h.live', hlive, h.id, h.effective]
  rfl

theorem mem_candidates_iff {a : Algorithm} {s : KeySelector} {keys : List SecretKey}
    {k : SecretKey} (hk : k ∈ keys) (hheld : k.profile.effective ≠ .none) :
    k ∈ candidates a keys s ↔ isCandidate a s k = true := by
  unfold candidates
  split
  · next ha =>
    have hother : k ≠ SecretKey.empty := by
      rintro rfl
      exact hheld rfl
    have hrefused : a.accepts k.profile.effective = false := by
      simp [Algorithm.accepts, ha, Ne.symm hheld]
    simp [isCandidate, hother, hrefused]
  · simp [hk]

/-- The hints of a key do not exclude it. They count only for making tokens, and if no id is
given. -/
def KeyMetadata.Allows (m : KeyMetadata) (a : Algorithm) (s : KeySelector) : Prop :=
  ∀ now, s.kid = none → s.purpose = .encode now →
    m.isValidAt now = true ∧ m.usage.all (·.permits a.family) = true

theorem isCandidate_iff {a : Algorithm} {s : KeySelector} {k : SecretKey} :
    isCandidate a s k = true ↔
      isCandidate a s (k.withMetadata {}) = true ∧ k.metadata.Allows a s := by
  obtain ⟨kid, purpose⟩ := s
  have hlive : (k.withMetadata {}).isDisposed = k.isDisposed := rfl
  have hprofile : (k.withMetadata {}).profile = k.profile := rfl
  by_cases hfits : k.isDisposed = true ∨ (!a.accepts k.profile.effective) = true
  · rw [isCandidate, isCandidate, hlive, hprofile, if_pos hfits, if_pos hfits]
    simp
  · rw [isCandidate, isCandidate, hlive, hprofile, if_neg hfits, if_neg hfits]
    rcases kid with _ | wanted
    · cases purpose with
      | decode => simp [KeyMetadata.Allows]
      | encode now =>
        simp [KeyMetadata.Allows, KeyMetadata.isValidAt, SecretKey.withMetadata]
    · exact ⟨fun h => ⟨h, by rintro now ⟨⟩⟩, fun h => h.1⟩

/-- A record does not hold hints that the key does not have. -/
theorem KeyMetadata.Allows.stored {a : Algorithm} {s : KeySelector} {k : SecretKey}
    (h : k.metadata.Allows a s) : k.stored.Allows a s := by
  intro now hkid hnow
  refine ⟨rfl, ?_⟩
  simp only [SecretKey.stored]
  split
  · rfl
  · exact (h now hkid hnow).2

theorem SecretKey.held_of_toJwk {k : SecretKey} {j : Jwk} (h : k.toJwk true = .ok j) :
    k.profile.effective ≠ .none := by
  obtain ⟨m, hm, ⟨bytes, rfl, -⟩ | ⟨p, chain, digest, hcertified, -⟩⟩ := toJwk_eq_ok h
  · simp [k.profile_eq _ hm, KeyMaterial.profile, KeyMaterial.effective, KeyMaterial.keyType]
  · rw [k.profile_eq m hm, KeyMaterial.profile, effective_of_certified hcertified]
    exact p.keyType_ne.1

namespace SecretRecord

theorem stands_of_toKey {k k' : SecretKey} {r : SecretRecord} {migrates : Bool}
    (hwrite : ofKey k = .ok r) (hread : r.toKey = .ok ⟨k', migrates⟩) :
    k.Stands k' ∧ k'.metadata = k.stored := by
  obtain ⟨bytes, hm, rfl⟩ | ⟨m, j, hm, hother, hj, rfl⟩ := ofKey_eq_ok hwrite
  · rw [toKey_base64url] at hread
    cases hread
    have hprofile := k.profile_eq _ hm
    refine ⟨⟨by simp [SecretKey.isDisposed, hm], rfl, rfl, by rw [hprofile]; rfl, ?_⟩, ?_⟩
    · simp [hprofile, KeyMaterial.profile, KeyMaterial.effective, KeyMaterial.keyType]
    · simp [SecretKey.make, SecretKey.stored, KeyMetadata.timeless, hprofile, KeyMaterial.profile,
        KeyMaterial.keyType]
  · rw [toKey_jwk _ hj] at hread
    obtain ⟨key, hkey, hread⟩ := map_eq_ok.1 hread
    obtain rfl : key = k' := congrArg ImportedSecret.key hread
    obtain ⟨hkid, halg, huse⟩ := SecretKey.frame_of_toJwk hj
    obtain ⟨bare, m', usage, -, -, husage, rfl⟩ := SecretKey.ofJwk_eq_ok hkey
    -- The text tells the type of a key even when its numbers are not valid.
    have heffective : m'.effective.keyType = m.effective.keyType := by
      obtain ⟨_, hfrom, hkty⟩ := SecretKey.kty_of_toJwk hj
      obtain ⟨_, hto, hkty'⟩ := SecretKey.kty_of_ofJwk hkey
      cases hm.symm.trans hfrom
      cases hto
      exact KeyMaterial.keyType_of_kty (hkty'.symm.trans hkty)
    obtain rfl : k.metadata.usage = usage := by
      rw [huse, SecretKey.usageOfJwk_name] at husage
      exact Except.ok.inj husage
    have hprofile := k.profile_eq m hm
    refine ⟨⟨by simp [SecretKey.isDisposed, hm], rfl, hkid, ?_, SecretKey.held_of_toJwk hj⟩, ?_⟩
    · rw [hprofile]
      exact heffective
    · simp [SecretKey.make, SecretKey.stored, KeyMetadata.timeless, hprofile, KeyMaterial.profile,
        hother, halg]

end SecretRecord

/-- A key that was stored is chosen as it was before but for hints that its record does not hold. -/
theorem mem_candidates_of_toKey {k k' : SecretKey} {r : SecretRecord} {migrates : Bool}
    (hwrite : SecretRecord.ofKey k = .ok r) (hread : r.toKey = .ok ⟨k', migrates⟩) (a : Algorithm)
    (s : KeySelector) {keys keys' : List SecretKey} (hk : k ∈ keys) (hk' : k' ∈ keys') :
    (k ∈ candidates a keys s → k' ∈ candidates a keys' s) ∧
    (k' ∈ candidates a keys' s ↔ isCandidate a s (k.withMetadata k.stored) = true) ∧
    (s.kid ≠ none ∨ s.purpose = .decode →
      (k' ∈ candidates a keys' s ↔ k ∈ candidates a keys s)) ∧
    ∀ now, s.purpose = .encode now → k.metadata.isValidAt now = true →
      (k.profile.keyType = .symmetric → k.metadata.usage = none) →
        (k' ∈ candidates a keys' s ↔ k ∈ candidates a keys s) := by
  obtain ⟨hstands, hmetadata⟩ := SecretRecord.stands_of_toKey hwrite hread
  have hnew : k' ∈ candidates a keys' s ↔ isCandidate a s (k.withMetadata k.stored) = true := by
    rw [mem_candidates_iff hk' (by rw [hstands.effective]; exact hstands.held),
      isCandidate_of_stands hstands, hmetadata]
  rw [hnew, mem_candidates_iff hk hstands.held]
  refine ⟨?_, Iff.rfl, fun hfree => ?_, fun now hnow hvalid hbare => ?_⟩
  · rw [isCandidate_iff, isCandidate_iff (k := k.withMetadata k.stored)]
    exact fun ⟨hfits, hallows⟩ => ⟨hfits, hallows.stored⟩
  · have hallows : ∀ m : KeyMetadata, m.Allows a s := by
      intro m now hkid hnow
      rcases hfree with hfree | hfree
      · exact absurd hkid hfree
      · rw [hnow] at hfree
        cases hfree
    rw [isCandidate_iff (k := k), isCandidate_iff (k := k.withMetadata k.stored)]
    exact and_congr_right fun _ => iff_of_true (hallows _) (hallows _)
  · have husage : k.stored.usage = k.metadata.usage := by
      simp only [SecretKey.stored]
      split
      · next hsymmetric => exact (hbare hsymmetric).symm
      · rfl
    have hallows : k.stored.Allows a s ↔ k.metadata.Allows a s := by
      refine ⟨fun h now' hkid hnow' => ?_, KeyMetadata.Allows.stored⟩
      obtain rfl : now = now' := by simpa [hnow] using hnow'
      exact ⟨hvalid, husage ▸ (h now hkid hnow').2⟩
    rw [isCandidate_iff (k := k), isCandidate_iff (k := k.withMetadata k.stored)]
    exact and_congr_right fun _ => hallows

/-- Stored and read again, a key makes tokens that it did not make before. -/
def SecretKey.Widens (k : SecretKey) (a : Algorithm) (now : Int) : Prop :=
  ∃ r k', SecretRecord.ofKey k = .ok r ∧ r.toKey = .ok ⟨k', false⟩ ∧
    k ∉ candidates a [k] ⟨none, .encode now⟩ ∧ k' ∈ candidates a [k'] ⟨none, .encode now⟩

theorem widens_of_isCandidate {k : SecretKey} {m : KeyMaterial} {a : Algorithm} {now : Int}
    (hm : k.material = some m) (hportable : m.Portable)
    (hbefore : isCandidate a ⟨none, .encode now⟩ k = false)
    (hafter : isCandidate a ⟨none, .encode now⟩ (k.withMetadata k.stored) = true) :
    k.Widens a now := by
  obtain ⟨r, hr, hback⟩ := SecretRecord.exists_toKey_of_ofKey hm hportable
  obtain ⟨j, hj⟩ := SecretKey.exists_toJwk hm hportable
  have hheld := SecretKey.held_of_toJwk hj
  have hheld' : (k.withMetadata k.stored).profile.effective ≠ .none := hheld
  refine ⟨r, _, hr, hback, ?_, (mem_candidates_iff (List.mem_singleton.2 rfl) hheld').2 hafter⟩
  rw [mem_candidates_iff (List.mem_singleton.2 rfl) hheld, hbefore]
  exact Bool.false_ne_true

theorem portable_rsa_small : (KeyMaterial.pair (.rsa ⟨33, 3, none⟩)).Portable := by
  refine .pair (.publicRsa ⟨?_, fun _ => by decide +kernel, by rintro s ⟨⟩⟩)
  simp [RsaKey.checkPublic, RsaKey.minExponent, RsaKey.maxExponent]

/-- Keys that have expired, that are not yet valid, or that are symmetric and for encryption. -/
theorem widens_of_hints :
    let rsa : KeyMaterial := .pair (.rsa ⟨33, 3, none⟩)
    let rs256 := Algorithm.rsaSignature "RS256" (.rsaDigest .sha256)
    SecretKey.Widens (.make none rsa { expiresAt := some 1 }) rs256 1 ∧
      SecretKey.Widens (.make none rsa { notBefore := some 2 }) rs256 1 ∧
      SecretKey.Widens (.make none (.symmetric (Bytes.zeros 32)) { usage := some .encryption })
        (Algorithm.hmac "HS256" .sha256) 1 := by
  intro rsa rs256
  refine ⟨?_, ?_, ?_⟩
  · exact widens_of_isCandidate rfl portable_rsa_small rfl rfl
  · exact widens_of_isCandidate rfl portable_rsa_small rfl rfl
  · exact widens_of_isCandidate rfl (.symmetric _) rfl rfl

/-- An RSA key for encryption does not sign after it was stored, though it has expired before. -/
theorem mem_candidates_of_toKey_small :
    let k : SecretKey := .make none (.pair (.rsa ⟨33, 3, none⟩))
      { expiresAt := some 1, usage := some .encryption }
    let a := Algorithm.rsaSignature "RS256" (.rsaDigest .sha256)
    ∃ r k', SecretRecord.ofKey k = .ok r ∧ r.toKey = .ok ⟨k', false⟩ ∧
      k' ∉ candidates a [k'] ⟨none, .encode 1⟩ ∧
      (k' ∈ candidates a [k'] ⟨none, .decode⟩ ↔ k ∈ candidates a [k] ⟨none, .decode⟩) ∧
      (k' ∈ candidates a [k'] ⟨none, .encode 0⟩ ↔ k ∈ candidates a [k] ⟨none, .encode 0⟩) := by
  intro k a
  obtain ⟨r, hr, hback⟩ :=
    SecretRecord.exists_toKey_of_ofKey (k := k) rfl portable_rsa_small
  have hmem := fun s : KeySelector => mem_candidates_of_toKey hr hback a s
    (List.mem_singleton.2 rfl) (List.mem_singleton.2 rfl)
  refine ⟨r, _, hr, hback, ?_, (hmem _).2.2.1 (.inr rfl), ?_⟩
  · rw [(hmem _).2.1]
    exact Bool.false_ne_true
  · exact (hmem _).2.2.2 0 rfl rfl (by rintro ⟨⟩)

end TokenSeal
