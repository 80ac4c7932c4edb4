import TokenSeal.Proofs.WireFormat

/-! Signing and verifying with one key fit together, also when the key has no private half, and a
buffer that is signed into changes in the place of the signature alone. -/

namespace TokenSeal

/-! ### Keys of signature algorithms -/

/-- The type of the keys that a method takes. -/
def SignatureMethod.keyType : SignatureMethod → KeyType
  | unsecured => .none
  | hmac _ => .symmetric
  | rsaDigest _ => .rsa
  | rsaSalted _ => .rsa
  | ecdsa _ => .ecc

theorem Algorithm.keyType_of_signature {a : Algorithm} {method : SignatureMethod}
    (h : a ∈ builtin) (hmethod : a.method = .signature method) : a.keyType = method.keyType := by
  have hall : ∀ a ∈ builtin, ∀ method, a.method = .signature method →
      a.keyType = method.keyType := by
    simp [builtin, signatures, contentCiphers, keyManagement, compressions, unsecured, hmac,
      rsaSignature, ecdsa, cipher, direct, wrapping, agreement, password,
      SignatureMethod.keyType]
  exact hall a h method hmethod

namespace KeyPair

/-- What verifying goes by. -/
def toPublic : KeyPair → KeyPair
  | rsa k => rsa k.toPublic
  | ec k => ec (.ofPoint k.point)

end KeyPair

namespace Signer

variable {s : Signer} {k : SecretKey} {a : Algorithm} {m : KeyMaterial} {p : KeyPair}

theorem matchesMaterial_toPublic (method : SignatureMethod) (h : m.effective = .pair p)
    (data signature : Bytes) :
    matchesMaterial method m data signature =
      matchesMaterial method (.pair p.toPublic) data signature := by
  unfold matchesMaterial
  rw [h]
  cases method <;> cases p <;> rfl

theorem keyType_effective (ha : a ∈ Algorithm.builtin) (hs : bind k a = .ok s)
    (hm : k.material = some m) : m.effective.keyType = s.method.keyType := by
  obtain ⟨method, hmethod, hsuits, rfl⟩ := bind_eq_ok.1 hs
  rw [(hsuits.profile (SecretKey.read_eq_ok.2 hm)).1]
  exact Algorithm.keyType_of_signature ha hmethod

theorem verify_eq (hm : s.key.material = some m) (data signature : Bytes) :
    s.verify data signature = .ok (matchesMaterial s.method m data signature) := by
  rw [verify, SecretKey.read_eq_ok.2 hm, map_ok]

theorem sign_of_public (hkey : p.keyType = s.method.keyType) (hm : s.key.material = some m)
    (heff : m.effective = .pair p) (hpublic : p.isPrivate = false) (data : Bytes) (e : Entropy) :
    s.sign data e = (.error .missingPrivateKey, e) := by
  rw [sign, Draw.bind_ok (Draw.ofExcept_eq_ok.2 ⟨SecretKey.read_eq_ok.2 hm, rfl⟩)]
  cases p with
  | rsa k =>
    have hsecret : k.secret = none := by simpa [KeyPair.isPrivate, RsaKey.isPrivate] using hpublic
    have hnone : rsaSecret m = .error .missingPrivateKey := by simp [rsaSecret, heff, hsecret]
    cases hmethod : s.method with
    | rsaDigest h => simp only [hnone]; rfl
    | rsaSalted h => simp only [hnone]; rfl
    | _ => simp [hmethod, KeyPair.keyType, SignatureMethod.keyType] at hkey
  | ec k =>
    have hsecret : k.secret = none := by simpa [KeyPair.isPrivate, EcKey.isPrivate] using hpublic
    have hnone : ecSignature k data = .error .missingPrivateKey := by simp [ecSignature, hsecret]
    cases hmethod : s.method with
    | ecdsa c => simp only [heff, hnone]; rfl
    | _ => simp [hmethod, KeyPair.keyType, SignatureMethod.keyType] at hkey

theorem verify_of_public {s' : Signer} {m' : KeyMaterial} {p' : KeyPair}
    (hmethod : s'.method = s.method) (hm : s.key.material = some m)
    (hm' : s'.key.material = some m') (heff : m.effective = .pair p)
    (heff' : m'.effective = .pair p') (hsame : p'.toPublic = p.toPublic)
    (data signature : Bytes) : s'.verify data signature = s.verify data signature := by
  rw [verify_eq hm, verify_eq hm', matchesMaterial_toPublic _ heff, matchesMaterial_toPublic _ heff',
    hmethod, hsame]

/-! ### Buffers -/

theorem signInto_eq_signOver (s : Signer) (data buffer : Bytes) (e : Entropy) :
    s.signInto data buffer e =
      ((s.signOver data buffer e).1.1.map fun n => (n, (s.signOver data buffer e).1.2),
        (s.signOver data buffer e).2) := by
  unfold signInto signOver
  split
  · rfl
  · rcases hsign : s.sign data e with ⟨_ | signature, e'⟩
    · exact Draw.bind_error hsign
    · exact Draw.bind_ok hsign

/-- Whether there is room, and if there is, whether signing succeeds, settles what is done. -/
theorem signOver_cases (s : Signer) (data buffer : Bytes) (e : Entropy) :
    (buffer.length < s.size ∧ s.signOver data buffer e = ((.ok none, buffer), e)) ∨
      (s.size ≤ buffer.length ∧ ∃ cause e', s.sign data e = (.error cause, e') ∧
        s.signOver data buffer e = ((.error cause, buffer), e')) ∨
      (s.size ≤ buffer.length ∧ ∃ signature e', s.sign data e = (.ok signature, e') ∧
        s.signOver data buffer e =
          ((.ok (some signature.length), signature ++ buffer.drop signature.length), e')) := by
  unfold signOver
  split
  · next hshort => exact .inl ⟨hshort, rfl⟩
  · next hroom =>
    rcases hsign : s.sign data e with ⟨cause | signature, e'⟩
    · exact .inr (.inl ⟨Nat.not_lt.1 hroom, cause, e', rfl, rfl⟩)
    · exact .inr (.inr ⟨Nat.not_lt.1 hroom, signature, e', rfl, rfl⟩)

theorem signOver_eq_none (s : Signer) (data buffer : Bytes) (e : Entropy) :
    (s.signOver data buffer e).1.1 = .ok none ↔ buffer.length < s.size := by
  obtain ⟨hshort, hout⟩ | ⟨hroom, cause, e', -, hout⟩ | ⟨hroom, signature, e', -, hout⟩ :=
    s.signOver_cases data buffer e
  · simp [hout, hshort]
  · simp [hout, Nat.not_lt.2 hroom]
  · simp [hout, Nat.not_lt.2 hroom]

theorem signOver_unchanged {buffer data : Bytes} {e : Entropy}
    (h : ¬ ∃ n, (s.signOver data buffer e).1.1 = .ok (some n)) :
    (s.signOver data buffer e).1.2 = buffer := by
  obtain ⟨-, hout⟩ | ⟨-, cause, e', -, hout⟩ | ⟨-, signature, e', -, hout⟩ :=
    s.signOver_cases data buffer e
  · rw [hout]
  · rw [hout]
  · exact absurd ⟨_, by rw [hout]⟩ h

theorem signOver_eq_some {buffer data : Bytes} {e : Entropy} {n : Nat}
    (h : (s.signOver data buffer e).1.1 = .ok (some n)) :
    ∃ signature e', s.sign data e = (.ok signature, e') ∧ signature.length = n ∧
      s.size ≤ buffer.length ∧
        (s.signOver data buffer e).1.2 = signature ++ buffer.drop n := by
  obtain ⟨-, hout⟩ | ⟨-, cause, e', -, hout⟩ | ⟨hroom, signature, e', hsign, hout⟩ :=
    s.signOver_cases data buffer e
  · simp [hout] at h
  · simp [hout] at h
  · simp only [hout, Except.ok.injEq, Option.some.injEq] at h
    subst h
    exact ⟨signature, e', hsign, rfl, hroom, by rw [hout]⟩

/-- How signing, signing into a buffer and verifying with one key fit together. -/
structure Coherent (s : Signer) : Prop where
  sign : ∀ data signature e e', s.sign data e = (.ok signature, e') →
    signature.length = s.size ∧ s.verify data signature = .ok true
  verify : ∀ data x, ∃ valid, s.verify data x = .ok valid
  hmac : ∀ h, s.method = .hmac h → ∀ data, ∃ tag, (∀ e, s.sign data e = (.ok tag, e)) ∧
    ∀ x, s.verify data x = .ok (decide (x = tag))
  unsecured : s.method = .unsecured → ∀ data x, s.verify data x = .ok (decide (x = []))
  signPublic : ∀ m p, s.key.material = some m → m.effective = .pair p → p.isPrivate = false →
    ∀ data e, s.sign data e = (.error .missingPrivateKey, e)
  verifyPublic : ∀ k' s' m m' p p', bind k' s.algorithm = .ok s' → s.key.material = some m →
    k'.material = some m' → m.effective = .pair p → m'.effective = .pair p' →
      p'.toPublic = p.toPublic → ∀ data x, s'.verify data x = s.verify data x
  short : ∀ data buffer e, (s.signOver data buffer e).1.1 = .ok none ↔ buffer.length < s.size
  unchanged : ∀ data buffer e, (¬ ∃ n, (s.signOver data buffer e).1.1 = .ok (some n)) →
    (s.signOver data buffer e).1.2 = buffer
  written : ∀ data buffer e n, (s.signOver data buffer e).1.1 = .ok (some n) →
    n = s.size ∧ n ≤ buffer.length ∧ ∃ signature, signature.length = n ∧
      s.verify data signature = .ok true ∧
        (s.signOver data buffer e).1.2 = signature ++ buffer.drop n

theorem exists_tag {h : HashId} (ha : a ∈ Algorithm.builtin) (hs : bind k a = .ok s)
    (hmethod : s.method = .hmac h) (data : Bytes) :
    ∃ tag, (∀ e, s.sign data e = (.ok tag, e)) ∧
      ∀ x, s.verify data x = .ok (decide (x = tag)) := by
  obtain ⟨method, hm, hsuits, rfl⟩ := bind_eq_ok.1 hs
  obtain rfl : method = .hmac h := hmethod
  obtain ⟨m, hmat, hread⟩ := SecretKey.read_of_live hsuits.1
  obtain ⟨bytes, rfl, -⟩ := hsuits.symmetric hread (Algorithm.keyType_of_signature ha hm)
  refine ⟨TokenSeal.hmac h bytes data, fun e => ?_, fun x => ?_⟩
  · rw [sign, Draw.bind_ok (Draw.ofExcept_eq_ok.2 ⟨hread, rfl⟩)]
    rfl
  · rw [verify_eq hmat]
    simp only [matchesMaterial, KeyMaterial.effective, eq_comm]

/-- Every key that a standard algorithm takes signs as it verifies. HMAC keys are asked for
nothing, and of others only that what they sign verifies under them. -/
theorem coherent_of_bind (ha : a ∈ Algorithm.builtin) (hs : bind k a = .ok s)
    (hown : ∀ m, k.material = some m → m.VerifiesOwn) : s.Coherent := by
  obtain ⟨method, hmethod, hsuits, heq⟩ := bind_eq_ok.1 hs
  have hkey : s.key = k := congrArg Signer.key heq
  have halgorithm : s.algorithm = a := congrArg Signer.algorithm heq
  obtain ⟨m, hmat, -⟩ := SecretKey.read_of_live hsuits.1
  have hm : s.key.material = some m := by rw [hkey, hmat]
  have hsigned : ∀ data signature e e', s.sign data e = (.ok signature, e') →
      signature.length = s.size ∧ s.verify data signature = .ok true := by
    intro data signature e e' hsign
    have hlength := length_of_sign (s := s) (by rwa [halgorithm]) (by rwa [hkey, halgorithm]) hsign
    exact ⟨hlength, by rw [verify_eq hm, matchesMaterial_sign hm (hown m hmat) hsign]⟩
  refine
    { sign := hsigned
      verify := fun data x => ⟨_, verify_eq hm data x⟩
      hmac := fun h hh => exists_tag ha hs hh
      unsecured := fun hnone data x => ?_
      signPublic := fun m' p hm' heff hpublic => ?_
      verifyPublic := fun k' s' m₁ m₂ p p' hs' hm₁ hm₂ heff heff' hsame => ?_
      short := s.signOver_eq_none
      unchanged := fun _ _ _ hnone => signOver_unchanged hnone
      written := fun data buffer e n hn => ?_ }
  · rw [verify_eq hm, hnone, matchesMaterial]
    cases x <;> rfl
  · have htype : p.keyType = s.method.keyType := by
      rw [← keyType_effective ha hs (hkey ▸ hm'), heff]
      rfl
    exact sign_of_public htype hm' heff hpublic
  · obtain ⟨method', hmethod', -, rfl⟩ := bind_eq_ok.1 hs'
    have hsameMethod : method' = s.method := by
      rw [halgorithm, hmethod] at hmethod'
      cases hmethod'
      exact (congrArg Signer.method heq).symm
    exact verify_of_public hsameMethod hm₁ hm₂ heff heff' hsame
  · obtain ⟨signature, e', hsign, rfl, hroom, hout⟩ := signOver_eq_some hn
    obtain ⟨hlength, hvalid⟩ := hsigned data signature e e' hsign
    exact ⟨hlength, hlength ▸ hroom, signature, rfl, hvalid, hout⟩

/-- A point alone is a key that cannot sign. A key of zeros signs, and into a buffer of 40 bytes it
puts its tag of 32. -/
theorem coherent_of_bind_keys :
    let point := SecretKey.make none (.pair (.ec (.ofPoint (c := .p256)
      ⟨CurveId.p256.data.baseX, CurveId.p256.data.baseY, by decide +kernel⟩))) {}
    (∀ m, point.material = some m → m.VerifiesOwn) ∧
      (∀ m, (Recipient.zeroKey "a").material = some m → m.VerifiesOwn) ∧
      (∃ s, bind point (.ecdsa "ES256" .p256) = .ok s ∧ s.Coherent ∧ s.size = 64 ∧
        ∀ data e, s.sign data e = (.error .missingPrivateKey, e)) ∧
      ∃ s, bind (Recipient.zeroKey "a") (.hmac "HS256" .sha256) = .ok s ∧ s.Coherent ∧
        ∀ data e, ∃ tag, s.sign data e = (.ok tag, e) ∧ s.verify data tag = .ok true ∧
          s.verify data [] = .ok false ∧
            (s.signOver data (Bytes.zeros 40) e).1 = (.ok (some 32), tag ++ Bytes.zeros 8) := by
  intro point
  have hpoint : ∀ m, point.material = some m → m.VerifiesOwn := by
    rintro m ⟨⟩
    refine ⟨fun _ _ _ _ _ heff => ?_, fun _ _ _ _ _ _ _ heff => ?_, fun key d _ _ heff hd => ?_⟩
    · cases heff
    · cases heff
    · cases heff
      cases hd
  have hzeros : ∀ m, (Recipient.zeroKey "a").material = some m → m.VerifiesOwn := by
    rintro m ⟨⟩
    exact KeyMaterial.verifiesOwn_symmetric _
  have hbind : bind point (.ecdsa "ES256" .p256) = .ok ⟨point, _, .ecdsa .p256, 64⟩ := rfl
  have hcoherent := coherent_of_bind (by decide) hbind hpoint
  have hbind' : bind (Recipient.zeroKey "a") (.hmac "HS256" .sha256) =
      .ok Recipient.greetingSigner := rfl
  have hcoherent' := coherent_of_bind (by decide) hbind' hzeros
  refine ⟨hpoint, hzeros, ⟨_, hbind, hcoherent, rfl, hcoherent.signPublic _ _ rfl rfl rfl⟩,
    Recipient.greetingSigner, hbind', hcoherent', fun data e => ?_⟩
  obtain ⟨tag, hsign, hverify⟩ := hcoherent'.hmac .sha256 rfl data
  obtain ⟨hlength, hvalid⟩ := hcoherent'.sign data tag e e (hsign e)
  have hlength' : tag.length = 32 := hlength
  have hne : ([] : Bytes) ≠ tag := by
    rintro rfl
    cases hlength'
  refine ⟨tag, hsign e, hvalid, by rw [hverify, decide_eq_false hne], ?_⟩
  obtain ⟨hshort, -⟩ | ⟨-, cause, e', hfail, -⟩ | ⟨-, signature, e', hdone, hout⟩ :=
    Recipient.greetingSigner.signOver_cases data (Bytes.zeros 40) e
  · exact absurd hshort (by decide)
  · rw [hsign] at hfail
    cases hfail
  · rw [hsign] at hdone
    cases hdone
    rw [hout, hlength']
    rfl

end Signer

end TokenSeal
