import TokenSeal.Proofs.WrapRoundTrip

/-! A key and its JSON Web Key are read back from each other. What is exported is read as the key
without its times, and what is read can be exported, to a JSON Web Key that is read as the same
key. -/

namespace TokenSeal

/-! ### Key pairs -/

theorem CurveId.order_lt (c : CurveId) : c.data.order < 256 ^ c.width := by
  cases c <;> decide

namespace EcKey

theorem ofNat?_eq_some {k : EcKey} {d : Nat} (h : k.secret = some d) :
    ofNat? k.curve d = some k := by
  obtain ⟨c, p, secret, hsecret⟩ := k
  obtain rfl : secret = some d := h
  obtain ⟨hpos, hlt, hp⟩ := hsecret d rfl
  rw [ofNat?, dif_pos ⟨hpos, hlt⟩]
  split
  · next p' hp' =>
    obtain rfl : p = p' := Option.some.inj (hp.symm.trans hp')
    rfl
  · next hnone => cases hp.symm.trans hnone

theorem ofScalar_ofNat {k : EcKey} {d : Nat} (h : k.secret = some d) :
    ofScalar k.curve (Bytes.ofNat k.curve.width d) = .ok k := by
  obtain ⟨hpos, hlt, -⟩ := k.secret_valid d h
  have hnumber : Bytes.toNat (Bytes.ofNat k.curve.width d) = d :=
    Bytes.toNat_ofNat (hlt.trans k.curve.order_lt)
  have hlength : Der.minScalarLength ≤ k.curve.width := by cases k.curve <;> decide
  have hscalar : Der.scalar? k.curve (Bytes.ofNat k.curve.width d) = some d := by
    simp [Der.scalar?, Bytes.length_ofNat, hnumber, hlength, hpos, hlt]
  rw [ofScalar, hscalar, Option.bind_some, ofNat?_eq_some h]

theorem ofScalar_eq_ok {c : CurveId} {bytes : Bytes} {k : EcKey} (h : ofScalar c bytes = .ok k) :
    k.secret = some (Bytes.toNat bytes) := by
  unfold ofScalar at h
  split at h
  · next k' hk =>
    cases h
    obtain ⟨d, hd, hk⟩ := Option.bind_eq_some_iff.1 hk
    simp only [Der.scalar?] at hd
    split at hd
    · cases hd
      exact secret_of_ofNat? hk
    · cases hd
  · cases h

end EcKey

namespace RsaKey

/-- The numbers of a key pass the checks that they are read with. -/
structure Valid (k : RsaKey) : Prop where
  limits : k.checkPublic = .ok ()
  size : k.secret = none → k.bitLength ≤ maxImportBits
  secret : ∀ s, k.secret = some s → k.checkSecret s = .ok ()

theorem ofPublic_eq_ok {n e : Nat} {k : RsaKey} :
    ofPublic n e = .ok k ↔ k = ⟨n, e, none⟩ ∧ k.Valid := by
  constructor
  · intro h
    simp only [ofPublic] at h
    split at h
    · cases h
    · next hsize =>
      obtain ⟨⟨⟩, hlimits, h⟩ := bind_eq_ok.1 h
      cases h
      exact ⟨rfl, hlimits, fun _ => Nat.not_lt.1 hsize, by rintro s ⟨⟩⟩
  · rintro ⟨rfl, hvalid⟩
    have hsize := Nat.not_lt.2 (hvalid.size rfl)
    simp [ofPublic, hsize, hvalid.limits]

theorem ofPrivate_eq_ok {n e d p q : Nat} {k : RsaKey} :
    ofPrivate n e d [p, q] = .ok k ↔ k = ⟨n, e, some ⟨d, [p, q]⟩⟩ ∧ k.Valid := by
  have hprimes : completePrimes n e d [p, q] = .ok [p, q] := rfl
  constructor
  · intro h
    rw [ofPrivate, hprimes, ok_bind] at h
    obtain ⟨⟨⟩, hlimits, h⟩ := bind_eq_ok.1 h
    obtain ⟨⟨⟩, hsecret, h⟩ := bind_eq_ok.1 h
    cases h
    exact ⟨rfl, hlimits, by rintro ⟨⟩, by rintro s ⟨⟩; exact hsecret⟩
  · rintro ⟨rfl, hvalid⟩
    simp [ofPrivate, hprimes, hvalid.limits, hvalid.secret _ rfl]

end RsaKey

namespace SecretKey

theorem memberBytes_eq_ok {member : String} {value : Option String} {bytes : Bytes} :
    memberBytes member value = .ok bytes ↔ value = bytesText bytes := by
  constructor
  · intro h
    obtain ⟨text, htext, h⟩ := bind_eq_ok.1 h
    split at h
    · next hdecode =>
      cases h
      cases value with
      | none => cases htext
      | some text' =>
        cases htext
        rw [bytesText, Base64Url.decode_eq_ok_iff.1 hdecode]
    · cases h
    · cases h
  · rintro rfl
    simp [memberBytes, Jwk.required, bytesText, Base64Url.decode_encode]

theorem memberNat_natText (member : String) (n : Nat) : memberNat member (natText n) = .ok n := by
  have hbytes : memberBytes member (natText n) = .ok (Bytes.minimal n) := memberBytes_eq_ok.2 rfl
  rw [memberNat, hbytes, map_ok, Bytes.toNat_minimal]

theorem ecOfJwk_exportEc (k : EcKey) (frame : Jwk) : ecOfJwk (exportEc k true frame) = .ok k := by
  have hx : memberBytes "x" (exportEc k true frame).x = .ok k.coordinates.1 :=
    memberBytes_eq_ok.2 rfl
  have hy : memberBytes "y" (exportEc k true frame).y = .ok k.coordinates.2 :=
    memberBytes_eq_ok.2 rfl
  have hpoint : EcKey.ofCoordinates k.curve k.coordinates.1 k.coordinates.2 =
      .ok (.ofPoint k.point) := EcKey.ofCoordinates_ofNat k.point
  have hcrv : Jwk.required "crv" (exportEc k true frame).crv = .ok k.curve.name := rfl
  rw [ecOfJwk, hcrv, ok_bind]
  simp only [CurveId.ofName?_name, hx, hy, ok_bind, hpoint]
  cases hsecret : k.secret with
  | none =>
    have hd : (exportEc k true frame).d = none := by simp [exportEc, EcKey.scalar?, hsecret]
    obtain ⟨c, p, secret, hscalar⟩ := k
    obtain rfl : secret = none := hsecret
    rw [hd]
    rfl
  | some d =>
    have hd : (exportEc k true frame).d = bytesText (Bytes.ofNat k.curve.width d) := by
      simp [exportEc, EcKey.scalar?, hsecret]
    have hbytes : memberBytes "d" (exportEc k true frame).d =
        .ok (Bytes.ofNat k.curve.width d) := memberBytes_eq_ok.2 hd
    have hcoordinates : k.coordinates = (EcKey.ofPoint k.point).coordinates := rfl
    rw [if_neg (by simp [hd, bytesText]), hbytes, ok_bind, EcKey.ofScalar_ofNat hsecret, ok_bind,
      if_pos hcoordinates]
    rfl

/-- An EC key with a private member has the point of its scalar. -/
theorem secret_of_ecOfJwk {j : Jwk} {k : EcKey} {text : String} (h : ecOfJwk j = .ok k)
    (hd : j.d = some text) :
    ∃ d, text = Base64Url.encode d ∧ k.secret = some (Bytes.toNat d) := by
  obtain ⟨crv, -, h⟩ := bind_eq_ok.1 h
  split at h
  · cases h
  · obtain ⟨x, -, h⟩ := bind_eq_ok.1 h
    obtain ⟨y, -, h⟩ := bind_eq_ok.1 h
    obtain ⟨publicKey, -, h⟩ := bind_eq_ok.1 h
    rw [hd, if_neg (by simp)] at h
    obtain ⟨d, hbytes, h⟩ := bind_eq_ok.1 h
    obtain ⟨key, hkey, h⟩ := bind_eq_ok.1 h
    split at h
    · cases h
      exact ⟨d, Option.some.inj (memberBytes_eq_ok.1 hbytes), EcKey.ofScalar_eq_ok hkey⟩
    · cases h

theorem rsaOfJwk_exportRsa {k : RsaKey} {frame j : Jwk} (hvalid : k.Valid)
    (hframe : frame.d = none) (h : exportRsa k true frame = .ok j) : rsaOfJwk j = .ok k := by
  obtain ⟨n, e, _ | ⟨d, primes⟩⟩ := k
  · cases h
    have hpublic : RsaKey.ofPublic n e = .ok ⟨n, e, none⟩ := RsaKey.ofPublic_eq_ok.2 ⟨rfl, hvalid⟩
    simp [rsaOfJwk, memberNat_natText, hframe, hpublic]
  · -- Only two primes have members of their own.
    rcases primes with _ | ⟨p, _ | ⟨q, _ | ⟨r, rest⟩⟩⟩
    · cases h
    · cases h
    · cases h
      have hprivate : RsaKey.ofPrivate n e d [p, q] = .ok ⟨n, e, some ⟨d, [p, q]⟩⟩ :=
        RsaKey.ofPrivate_eq_ok.2 ⟨rfl, hvalid⟩
      have hd : (natText d).isNone = false := rfl
      simp [rsaOfJwk, memberNat_natText, hd, hprivate]
    · cases h

end SecretKey

/-! ### Material that can be exchanged -/

namespace KeyPair

def kty : KeyPair → String
  | rsa _ => "RSA"
  | ec _ => "EC"

/-- Pairs that can be exported and are read back: EC keys, and valid RSA keys with no more than
two primes. -/
inductive Portable : KeyPair → Prop where
  | publicRsa {n e : Nat} (hvalid : RsaKey.Valid ⟨n, e, none⟩) : Portable (.rsa ⟨n, e, none⟩)
  | privateRsa {n e d p q : Nat} (hvalid : RsaKey.Valid ⟨n, e, some ⟨d, [p, q]⟩⟩) :
      Portable (.rsa ⟨n, e, some ⟨d, [p, q]⟩⟩)
  | ec (k : EcKey) : Portable (.ec k)

theorem portable_of_ofPublic {n e : Nat} {k : RsaKey} (h : RsaKey.ofPublic n e = .ok k) :
    (rsa k).Portable := by
  obtain ⟨rfl, hvalid⟩ := RsaKey.ofPublic_eq_ok.1 h
  exact .publicRsa hvalid

theorem portable_of_ofPrivate {n e d p q : Nat} {k : RsaKey}
    (h : RsaKey.ofPrivate n e d [p, q] = .ok k) : (rsa k).Portable := by
  obtain ⟨rfl, hvalid⟩ := RsaKey.ofPrivate_eq_ok.1 h
  exact .privateRsa hvalid

end KeyPair

namespace KeyMaterial

def kty : KeyMaterial → String
  | none => ""
  | symmetric _ => "oct"
  | pair p => p.kty
  | certificate _ p => p.kty

theorem keyType_of_kty {m m' : KeyMaterial} (h : m.kty = m'.kty) :
    m.effective.keyType = m'.effective.keyType := by
  rcases m with _ | _ | (_ | _) | ⟨_, _ | _⟩ <;> rcases m' with _ | _ | (_ | _) | ⟨_, _ | _⟩ <;>
    first | rfl | simp [kty, KeyPair.kty] at h

/-- The RSA key in the material, if there is one, is valid. -/
def Valid (m : KeyMaterial) : Prop :=
  ∀ k, m.effective = .pair (.rsa k) → k.Valid

inductive Portable : KeyMaterial → Prop where
  | symmetric (bytes : Bytes) : Portable (.symmetric bytes)
  | pair {p : KeyPair} (hp : p.Portable) : Portable (.pair p)
  | certificate (der : Bytes) {p : KeyPair} (hp : p.Portable) : Portable (.certificate der p)

theorem Portable.valid {m : KeyMaterial} (h : m.Portable) : m.Valid := by
  cases h with
  | symmetric bytes => rintro k ⟨⟩
  | pair hp | certificate der hp =>
    rintro k ⟨⟩
    cases hp <;> assumption

end KeyMaterial

/-- The hints without the times. -/
def KeyMetadata.timeless (m : KeyMetadata) : KeyMetadata :=
  { algorithm := m.algorithm, usage := m.usage }

/-! ### Whole keys -/

namespace SecretKey

theorem exportRsa_false (k : RsaKey) (frame : Jwk) : exportRsa k false frame =
    .ok { frame with kty := "RSA", n := natText k.modulus, e := natText k.exponent } := by
  rw [exportRsa]
  cases k.secret <;> rfl

/-- An export without private members, or one with those of two primes. -/
theorem exportRsa_eq_ok {k : RsaKey} {withPrivate : Bool} {frame j : Jwk}
    (h : exportRsa k withPrivate frame = .ok j) :
    j = { frame with kty := "RSA", n := natText k.modulus, e := natText k.exponent } ∨
      ∃ d p q, withPrivate = true ∧ k.secret = some ⟨d, [p, q]⟩ ∧
        j = { frame with
          kty := "RSA", n := natText k.modulus, e := natText k.exponent, d := natText d
          p := natText p, q := natText q } := by
  simp only [exportRsa] at h
  split at h
  · next s hs =>
    split at h
    · next hprivate =>
      split at h
      · next p q hprimes =>
        cases h
        obtain ⟨d, primes⟩ := s
        obtain rfl : primes = [p, q] := hprimes
        exact .inr ⟨d, p, q, hprivate, hs, rfl⟩
      · cases h
    · cases h
      exact .inl rfl
  · cases h
    exact .inl rfl

/-- The members that do not depend on the material are left as they are. -/
theorem frame_of_exportPair {p : KeyPair} {frame j : Jwk} (h : exportPair p true frame = .ok j) :
    j.kty = p.kty ∧ j.kid = frame.kid ∧ j.alg = frame.alg ∧ j.use = frame.use ∧
      j.x5c = frame.x5c := by
  cases p with
  | rsa k =>
    obtain rfl | ⟨d, p, q, -, -, rfl⟩ := exportRsa_eq_ok h <;> exact ⟨rfl, rfl, rfl, rfl, rfl⟩
  | ec k =>
    cases h
    exact ⟨rfl, rfl, rfl, rfl, rfl⟩

theorem bareMaterial_exportPair {p : KeyPair} {frame j : Jwk}
    (hvalid : (KeyMaterial.pair p).Valid) (hframe : frame.d = none)
    (h : exportPair p true frame = .ok j) : bareMaterial j = .ok (.pair p) := by
  obtain ⟨hkty, -⟩ := frame_of_exportPair h
  cases p with
  | rsa k =>
    have hread : rsaOfJwk j = .ok k := rsaOfJwk_exportRsa (hvalid k rfl) hframe h
    simp [bareMaterial, hkty, KeyPair.kty, hread]
  | ec k =>
    cases h
    have hread := ecOfJwk_exportEc k frame
    simp [bareMaterial, hkty, KeyPair.kty, hread]

theorem usageOfJwk_name (usage : Option KeyUsage) :
    usageOfJwk (usage.map (·.name)) = .ok usage := by
  rcases usage with _ | _ | _ <;> rfl

theorem make_eq_withMetadata {k : SecretKey} {m : KeyMaterial} (hm : k.material = some m)
    (metadata : KeyMetadata) : make k.id m metadata = k.withMetadata metadata := by
  obtain ⟨id, old, profile, material, hprofile⟩ := k
  obtain rfl : material = some m := hm
  obtain rfl : profile = m.profile := hprofile m rfl
  rfl

theorem certified_eq_ok {chain : Option (List String)} {bare m : KeyMaterial}
    (h : certified chain bare = .ok m) :
    m = bare ∨ ∃ der p, bare = .pair p ∧ m = .certificate der p := by
  unfold certified at h
  split at h
  · next p =>
    split at h
    · next der _ =>
      cases h
      exact .inr ⟨der, p, rfl, rfl⟩
    · cases h
  · cases h
    exact .inl rfl

theorem effective_of_certified {chain : Option (List String)} {p : KeyPair} {m : KeyMaterial}
    (h : certified chain (.pair p) = .ok m) : m.effective = .pair p := by
  obtain rfl | ⟨der, p', hp, rfl⟩ := certified_eq_ok h
  · rfl
  · exact hp.symm

theorem kty_of_certified {chain : Option (List String)} {bare m : KeyMaterial}
    (h : certified chain bare = .ok m) : bare.kty = m.kty := by
  obtain rfl | ⟨der, p, rfl, rfl⟩ := certified_eq_ok h <;> rfl

theorem portable_of_certified {chain : Option (List String)} {bare m : KeyMaterial}
    (h : certified chain bare = .ok m) (hbare : bare.Portable) : m.Portable := by
  obtain rfl | ⟨der, p, rfl, rfl⟩ := certified_eq_ok h
  · exact hbare
  · cases hbare with
    | pair hp => exact .certificate der hp

theorem toJwk_eq_ok {k : SecretKey} {j : Jwk} (h : k.toJwk true = .ok j) :
    ∃ m, k.material = some m ∧
      ((∃ bytes, m = .symmetric bytes ∧
          j = { k.jwkFrame with kty := "oct", k := bytesText bytes }) ∨
        ∃ p chain digest, certified chain (.pair p) = .ok m ∧
          exportPair p true { k.jwkFrame with x5c := chain, x5tS256 := digest } = .ok j) := by
  obtain ⟨m, hm, h⟩ := bind_eq_ok.1 h
  refine ⟨m, read_eq_ok.1 hm, ?_⟩
  cases m with
  | none => cases h
  | symmetric bytes => exact .inl ⟨bytes, rfl, (Except.ok.inj h).symm⟩
  | pair p => exact .inr ⟨p, none, none, rfl, h⟩
  | certificate der p =>
    refine .inr ⟨p, some [Base64.encodePadded der], _, ?_, h⟩
    simp [certified, Base64.decodePadded?_encodePadded]

theorem frame_of_toJwk {k : SecretKey} {j : Jwk} (h : k.toJwk true = .ok j) :
    j.kid = k.id ∧ j.alg = k.metadata.algorithm ∧ j.use = k.metadata.usage.map (·.name) := by
  obtain ⟨m, -, ⟨bytes, -, rfl⟩ | ⟨p, chain, digest, -, hexport⟩⟩ := toJwk_eq_ok h
  · exact ⟨rfl, rfl, rfl⟩
  · obtain ⟨-, hkid, halg, huse, -⟩ := frame_of_exportPair hexport
    exact ⟨hkid, halg, huse⟩

/-- What is exported is read as the key without its times. -/
theorem ofJwk_of_toJwk {k : SecretKey} {m : KeyMaterial} {j : Jwk} (hm : k.material = some m)
    (hvalid : m.Valid) (h : k.toJwk true = .ok j) :
    ofJwk j = .ok (k.withMetadata k.metadata.timeless) := by
  -- A certificate is taken off the material and put around it again.
  have hmaterial : (bareMaterial j >>= certified j.x5c) = .ok m := by
    obtain ⟨m', hm', hparts⟩ := toJwk_eq_ok h
    obtain rfl := Option.some.inj (hm.symm.trans hm')
    obtain ⟨bytes, rfl, rfl⟩ | ⟨p, chain, digest, hcertified, hexport⟩ := hparts
    · have hk : memberBytes "k" (bytesText bytes) = .ok bytes := memberBytes_eq_ok.2 rfl
      simp [bareMaterial, hk, certified, jwkFrame]
    · obtain ⟨-, -, -, -, hx5c⟩ := frame_of_exportPair hexport
      have hpair : (KeyMaterial.pair p).Valid := by
        rw [KeyMaterial.Valid, effective_of_certified hcertified] at hvalid
        exact hvalid
      rw [bareMaterial_exportPair hpair rfl hexport, ok_bind, hx5c]
      exact hcertified
  obtain ⟨hkid, halg, huse⟩ := frame_of_toJwk h
  obtain ⟨bare, hbare, hcertified⟩ := bind_eq_ok.1 hmaterial
  rw [ofJwk, hbare, ok_bind, hcertified, ok_bind, huse, usageOfJwk_name, ok_bind, hkid, halg]
  exact congrArg Except.ok (make_eq_withMetadata hm _)

theorem portable_of_rsaOfJwk {j : Jwk} {k : RsaKey} (h : rsaOfJwk j = .ok k) :
    (KeyPair.rsa k).Portable := by
  obtain ⟨n, -, h⟩ := bind_eq_ok.1 h
  obtain ⟨e, -, h⟩ := bind_eq_ok.1 h
  split at h
  · exact KeyPair.portable_of_ofPublic (mapError_eq_ok.1 h)
  · obtain ⟨d, -, h⟩ := bind_eq_ok.1 h
    obtain ⟨p, -, h⟩ := bind_eq_ok.1 h
    obtain ⟨q, -, h⟩ := bind_eq_ok.1 h
    exact KeyPair.portable_of_ofPrivate (mapError_eq_ok.1 h)

theorem bareMaterial_eq_ok {j : Jwk} {bare : KeyMaterial} (h : bareMaterial j = .ok bare) :
    (j.kty = "oct" ∧ ∃ bytes, bare = .symmetric bytes) ∨
      (j.kty = "RSA" ∧ ∃ k, bare = .pair (.rsa k) ∧ rsaOfJwk j = .ok k) ∨
      (j.kty = "EC" ∧ ∃ k, bare = .pair (.ec k) ∧ ecOfJwk j = .ok k) := by
  unfold bareMaterial at h
  split at h
  · next hkty =>
    obtain ⟨bytes, -, rfl⟩ := map_eq_ok.1 h
    exact .inl ⟨hkty, bytes, rfl⟩
  · split at h
    · next hkty =>
      obtain ⟨k, hk, rfl⟩ := map_eq_ok.1 h
      exact .inr (.inl ⟨hkty, k, rfl, hk⟩)
    · split at h
      · next hkty =>
        obtain ⟨k, hk, rfl⟩ := map_eq_ok.1 h
        exact .inr (.inr ⟨hkty, k, rfl, hk⟩)
      · cases h

theorem ofJwk_eq_ok {j : Jwk} {k : SecretKey} (h : ofJwk j = .ok k) :
    ∃ bare m usage, bareMaterial j = .ok bare ∧ certified j.x5c bare = .ok m ∧
      usageOfJwk j.use = .ok usage ∧
      k = make j.kid m { algorithm := j.alg, usage := usage } := by
  obtain ⟨bare, hbare, h⟩ := bind_eq_ok.1 h
  obtain ⟨m, hm, h⟩ := bind_eq_ok.1 h
  obtain ⟨usage, husage, h⟩ := bind_eq_ok.1 h
  exact ⟨bare, m, usage, hbare, hm, husage, (Except.ok.inj h).symm⟩

theorem portable_of_ofJwk {j : Jwk} {k : SecretKey} (h : ofJwk j = .ok k) :
    ∃ m, k.material = some m ∧ m.Portable := by
  obtain ⟨bare, m, usage, hbare, hm, -, rfl⟩ := ofJwk_eq_ok h
  refine ⟨m, rfl, portable_of_certified hm ?_⟩
  obtain ⟨-, bytes, rfl⟩ | ⟨-, k, rfl, hk⟩ | ⟨-, k, rfl, -⟩ := bareMaterial_eq_ok hbare
  · exact .symmetric bytes
  · exact .pair (portable_of_rsaOfJwk hk)
  · exact .pair (.ec k)

theorem exists_toJwk {k : SecretKey} {m : KeyMaterial} (hm : k.material = some m)
    (h : m.Portable) : ∃ j, k.toJwk true = .ok j := by
  have hpair : ∀ {p : KeyPair} (frame : Jwk), p.Portable →
      ∃ j, exportPair p true frame = .ok j := by
    intro p frame hp
    cases hp <;> exact ⟨_, rfl⟩
  rw [toJwk, read_eq_ok.2 hm, ok_bind]
  cases h with
  | symmetric bytes => exact ⟨_, rfl⟩
  | pair hp => exact hpair _ hp
  | certificate der hp => exact hpair _ hp

theorem kty_of_toJwk {k : SecretKey} {j : Jwk} (h : k.toJwk true = .ok j) :
    ∃ m, k.material = some m ∧ j.kty = m.kty := by
  obtain ⟨m, hm, ⟨bytes, rfl, rfl⟩ | ⟨p, chain, digest, hcertified, hexport⟩⟩ := toJwk_eq_ok h
  · exact ⟨_, hm, rfl⟩
  · obtain ⟨hkty, -⟩ := frame_of_exportPair hexport
    exact ⟨m, hm, hkty.trans (kty_of_certified hcertified)⟩

theorem kty_of_ofJwk {j : Jwk} {k : SecretKey} (h : ofJwk j = .ok k) :
    ∃ m, k.material = some m ∧ j.kty = m.kty := by
  obtain ⟨bare, m, usage, hbare, hm, -, rfl⟩ := ofJwk_eq_ok h
  have hkty : j.kty = bare.kty := by
    obtain ⟨hkty, -, rfl⟩ | ⟨hkty, -, rfl, -⟩ | ⟨hkty, -, rfl, -⟩ := bareMaterial_eq_ok hbare <;>
      exact hkty
  exact ⟨m, rfl, hkty.trans (kty_of_certified hm)⟩

/-- A key and its JSON Web Key with private members are read back from each other. -/
theorem ofJwk_inverse_toJwk (k : SecretKey) (j : Jwk) :
    ((∀ m, k.material = some m → m.Valid) → k.toJwk true = .ok j →
      ∃ k', (Jwk.ofText? j.render).map ofJwk = some (.ok k') ∧ k'.id = k.id ∧
        k'.metadata = k.metadata.timeless ∧ k'.profile = k.profile ∧ k'.material = k.material ∧
        k'.toJwk true = .ok j) ∧
    (ofJwk j = .ok k →
      (∃ j', k.toJwk true = .ok j' ∧ ofJwk j' = .ok k ∧
        (Jwk.ofText? j'.render).map ofJwk = some (.ok k)) ∧
      ∀ text, j.kty = "EC" → j.d = some text →
        ∃ (ec : EcKey) (d : Bytes), k.material.map (·.effective) = some (.pair (.ec ec)) ∧
          text = Base64Url.encode d ∧ ec.secret = some (Bytes.toNat d) ∧
          Point.ofScalar? ec.curve (Bytes.toNat d) = some ec.point) := by
  refine ⟨fun hvalid h => ?_, fun h => ⟨?_, fun text hkty hd => ?_⟩⟩
  · obtain ⟨m, hm, -⟩ := bind_eq_ok.1 h
    have hmaterial := read_eq_ok.1 hm
    refine ⟨k.withMetadata k.metadata.timeless, ?_, rfl, rfl, rfl, rfl, h⟩
    rw [j.ofText?_render, Option.map_some, ofJwk_of_toJwk hmaterial (hvalid m hmaterial) h]
  · obtain ⟨m, hm, hportable⟩ := portable_of_ofJwk h
    obtain ⟨j', hj'⟩ := exists_toJwk hm hportable
    have hback : ofJwk j' = .ok k := by
      have htimes : k.metadata.timeless = k.metadata := by
        obtain ⟨bare, m, usage, -, -, -, rfl⟩ := ofJwk_eq_ok h
        rfl
      rw [ofJwk_of_toJwk hm hportable.valid hj', htimes]
      rfl
    exact ⟨j', hj', hback, by rw [j'.ofText?_render, Option.map_some, hback]⟩
  · obtain ⟨bare, m, usage, hbare, hm, -, rfl⟩ := ofJwk_eq_ok h
    obtain ⟨hother, -⟩ | ⟨hother, -⟩ | ⟨-, ec, rfl, hec⟩ := bareMaterial_eq_ok hbare
    · simp [hkty] at hother
    · simp [hkty] at hother
    · obtain ⟨d, htext, hsecret⟩ := secret_of_ecOfJwk hec hd
      exact ⟨ec, d, congrArg some (effective_of_certified hm), htext, hsecret,
        (ec.secret_valid _ hsecret).2.2⟩

/-- An RSA key behind a certificate, and the EC key whose scalar is one. -/
theorem ofJwk_inverse_toJwk_small :
    let rsa : RsaKey := ⟨33, 3, some ⟨7, [3, 11]⟩⟩
    let k : SecretKey :=
      .make (some "a") (.certificate [1, 2, 3] (.rsa rsa)) { usage := some .signing }
    (∃ j k', k.toJwk true = .ok j ∧ (Jwk.ofText? j.render).map ofJwk = some (.ok k') ∧
      k'.material = k.material) ∧
    ∃ j k' text, j.kty = "EC" ∧ j.d = some text ∧ ofJwk j = .ok k' ∧
      ∃ j', k'.toJwk true = .ok j' ∧ ofJwk j' = .ok k' := by
  intro rsa k
  have hvalid : ∀ m, k.material = some m → m.Valid := by
    rintro _ ⟨⟩ _ ⟨⟩
    refine ⟨?_, by rintro ⟨⟩, ?_⟩
    · simp [rsa, RsaKey.checkPublic, RsaKey.minExponent, RsaKey.maxExponent]
    · rintro _ ⟨⟩
      simp [rsa, RsaKey.checkSecret]
  have hbase : Point.ofScalar? .p256 1 =
      some ⟨CurveId.p256.data.baseX, CurveId.p256.data.baseY, by decide +kernel⟩ := by
    decide +kernel
  refine ⟨?_, ?_⟩
  · obtain ⟨k', hk', -, -, -, hmaterial, -⟩ := (ofJwk_inverse_toJwk k _).1 hvalid rfl
    exact ⟨_, k', rfl, hk', hmaterial⟩
  · let ec : EcKey := ⟨.p256, _, some 1, by rintro _ ⟨⟩; exact ⟨by decide, by decide, hbase⟩⟩
    let k : SecretKey := .make none (.pair (.ec ec)) {}
    obtain ⟨k', hk', -⟩ := (ofJwk_inverse_toJwk k _).1 (by rintro _ ⟨⟩ _ ⟨⟩) rfl
    rw [Jwk.ofText?_render] at hk'
    obtain ⟨⟨j', hj', hback, -⟩, -⟩ := (ofJwk_inverse_toJwk k' _).2 (Option.some.inj hk')
    exact ⟨_, k', _, rfl, rfl, Option.some.inj hk', j', hj', hback⟩

end SecretKey

end TokenSeal
