import TokenSeal.Proofs.Binding
import TokenSeal.Proofs.Parameters
import TokenSeal.Proofs.Sealing
import TokenSeal.Proofs.Transport

/-! A content key is unwrapped to what was wrapped, by whoever has the key it was wrapped for. Of keys
over curves it is asked that both sides of an agreement with them come to the same secret, and of
RSA keys that their two functions are inverse to each other. -/

namespace TokenSeal

/-! ### Agreement -/

/-- Whoever agrees with a private key comes to what its owner comes to: to the same secret, or to
none. -/
def EcKey.Agrees (k : EcKey) : Prop :=
  ∀ d, k.secret = some d → ∀ d' (p' : Point k.curve), 0 < d' → d' < k.curve.data.order →
    Point.ofScalar? k.curve d' = some p' →
      KeyWrapper.sharedSecret? d p' = KeyWrapper.sharedSecret? d' k.point

theorem CurveId.ofName?_name (c : CurveId) : ofName? c.name = some c := by
  cases c <;> rfl

theorem CurveId.field_lt (c : CurveId) : c.data.field < 256 ^ c.width := by
  cases c <;> decide

theorem CurveId.contains_base (c : CurveId) : c.contains c.data.baseX c.data.baseY = true := by
  cases c <;> decide +kernel

theorem Point.coordinates_lt {c : CurveId} (p : Point c) :
    p.x < 256 ^ c.width ∧ p.y < 256 ^ c.width := by
  have hon := p.onCurve
  have hfield := c.field_lt
  simp only [CurveId.contains, Bool.and_eq_true, decide_eq_true_eq] at hon
  exact ⟨by omega, by omega⟩

theorem EcKey.ofCoordinates_ofNat {c : CurveId} (p : Point c) :
    ofCoordinates c (Bytes.ofNat c.width p.x) (Bytes.ofNat c.width p.y) = .ok (ofPoint p) := by
  obtain ⟨hx, hy⟩ := p.coordinates_lt
  simp [ofCoordinates, Bytes.length_ofNat, Bytes.toNat_ofNat hx, Bytes.toNat_ofNat hy,
    Point.ofCoordinates?, p.onCurve]

theorem EcKey.curve_of_ofNat? {c : CurveId} {d : Nat} {k : EcKey} (h : ofNat? c d = some k) :
    k.curve = c := by
  unfold ofNat? at h
  split at h
  · split at h
    · cases h
      rfl
    · cases h
  · cases h

theorem SecretKey.curve_of_drawEcKey {c : CurveId} {fuel : Nat} {k : EcKey} {e e' : Entropy}
    (h : drawEcKey c fuel e = (.ok k, e')) : k.curve = c := by
  induction fuel generalizing e with
  | zero => cases h
  | succ fuel ih =>
    obtain ⟨bytes, e₁, -, h⟩ := Draw.bind_eq_ok.1 h
    cases hk : EcKey.ofNat? c (Bytes.toNat bytes) with
    | none =>
      simp only [hk] at h
      exact ih h
    | some k' =>
      simp only [hk] at h
      cases h
      exact EcKey.curve_of_ofNat? hk

namespace KeyWrapper

theorem ephemeralKey_ephemeralJwk (k : EcKey) :
    ephemeralKey (ephemeralJwk k) = .ok (.ofPoint k.point) := by
  simp [ephemeralKey, ephemeralJwk, SecretKey.exportEc, EcKey.coordinates, SecretKey.bytesText,
    CurveId.ofName?_name, ephemeralCoordinate, Base64Url.decode_encode, EcKey.ofCoordinates_ofNat]

theorem agreeWith_of_agreeFresh {recipient : EcKey} {z : Bytes} {epk : Jwk} {e e' : Entropy}
    (hsecret : recipient.secret.isSome) (hagrees : recipient.Agrees)
    (h : agreeFresh recipient e = (.ok (z, epk), e')) :
    ∃ ephemeral, ephemeralKey epk = .ok ephemeral ∧ agreeWith recipient ephemeral = .ok z := by
  obtain ⟨fresh, e₁, hfresh, h⟩ := Draw.bind_eq_ok.1 h
  have hsame := SecretKey.curve_of_drawEcKey hfresh
  obtain ⟨d, hd⟩ := Option.isSome_iff_exists.1 hsecret
  cases hz : fresh.secret.bind fun d => sharedSecret? d recipient.point with
  | none =>
    simp only [hz] at h
    cases h
  | some z' =>
    simp only [hz] at h
    cases h
    obtain ⟨d', hd', hshared⟩ := Option.bind_eq_some_iff.1 hz
    refine ⟨.ofPoint fresh.point, ephemeralKey_ephemeralJwk fresh, ?_⟩
    obtain ⟨curve, point, secret, hvalid⟩ := fresh
    obtain rfl : curve = recipient.curve := hsame
    obtain ⟨hpos, hlt, hpoint⟩ := hvalid d' hd'
    have hsame := hagrees d hd d' point hpos hlt hpoint
    simp only [agreeWith, hd, EcKey.ofPoint, if_true, hsame]
    rw [hshared]

end KeyWrapper

theorem Agreement.length_derive (secret : Bytes) (algorithm : String) (apu apv : Bytes)
    (n : Nat) : (derive secret algorithm apu apv (8 * n)).length = n := by
  rw [derive, List.length_take, HashId.length_flatMap_digest, List.length_range, rounds,
    HashId.size]
  omega

/-! ### Wrapping and unwrapping -/

theorem KeyMaterial.isPrivate_of_effective {m : KeyMaterial} {p : KeyPair}
    (h : m.effective = .pair p) : m.isPrivate = p.isPrivate := by
  cases m <;> simp_all [effective, isPrivate]

/-- Agreements with a key and ciphertexts for it are undone by it. There is nothing to ask of
symmetric keys. -/
structure KeyMaterial.Recovers (m : KeyMaterial) : Prop where
  curve : ∀ k, m.effective = .pair (.ec k) → k.Agrees
  rsa : ∀ k, m.effective = .pair (.rsa k) → k.Inverts

theorem KeyMaterial.recovers_symmetric (bytes : Bytes) : (symmetric bytes).Recovers := by
  constructor <;> intros <;> simp_all [effective]

namespace KeyWrapper

theorem ecKey_eq_ok {m : KeyMaterial} {k : EcKey} :
    ecKey m = .ok k ↔ m.effective = .pair (.ec k) := by
  unfold ecKey
  cases m.effective with
  | pair p => cases p <;> simp
  | _ => simp

theorem unwrapAes_wrapAes {kek key wrapped : Bytes} (hlen : 16 ≤ key.length)
    (h : wrapAes kek key = .ok wrapped) : unwrapAes kek wrapped = .ok key := by
  unfold wrapAes at h
  split at h
  · cases h
  split at h
  · cases h
  · next hkek hmod =>
    cases h
    have hback := KeyWrap.unwrap?_wrap kek (Nat.dvd_of_mod_eq_zero (by omega)) hlen
    simp only [Bool.not_eq_true, Bool.not_eq_false'] at hkek
    rw [unwrapAes, if_pos hkek, hback]

/-- All the ways to come by a content key of `n` bytes and to send it along. -/
inductive Wrapping (w : KeyWrapper) (enc : Algorithm) (n : Nat) (m : KeyMaterial) :
    WrappedKey → Prop
  | shared {key : Bytes} (hmethod : w.method = .direct) (hkey : symmetricKey m = .ok key)
      (hlength : key.length = n) : Wrapping w enc n m ⟨key, [], .none⟩
  | agreed {recipient : EcKey} {z : Bytes} {epk : Jwk} {e e' : Entropy}
      (hmethod : w.method = .agreement none) (hkey : ecKey m = .ok recipient)
      (hagree : agreeFresh recipient e = (.ok (z, epk), e')) :
      Wrapping w enc n m ⟨Agreement.derive z enc.code w.party.apu w.party.apv (8 * n), [],
        .agreement epk w.party.apu w.party.apv⟩
  | aes {bits : Nat} {kek contentKey wrapped : Bytes} (hmethod : w.method = .aesWrap bits)
      (hkey : symmetricKey m = .ok kek) (hlength : contentKey.length = n)
      (hwrap : wrapAes kek contentKey = .ok wrapped) :
      Wrapping w enc n m ⟨contentKey, wrapped, .none⟩
  | gcm {bits : Nat} {kek iv contentKey wrapped tag : Bytes} (hmethod : w.method = .gcmWrap bits)
      (hkey : symmetricKey m = .ok kek) (hlength : contentKey.length = n)
      (hiv : iv.length = Gcm.ivLength)
      (hwrap : Sealer.sealGcm kek iv contentKey [] = .ok (wrapped, tag)) :
      Wrapping w enc n m ⟨contentKey, wrapped, .gcm iv tag⟩
  | agreedWrap {bits : Nat} {recipient : EcKey} {z contentKey wrapped : Bytes} {epk : Jwk}
      {e e' : Entropy} (hmethod : w.method = .agreement (some bits))
      (hkey : ecKey m = .ok recipient) (hlength : contentKey.length = n)
      (hagree : agreeFresh recipient e = (.ok (z, epk), e'))
      (hwrap : wrapAes (Agreement.derive z w.algorithm.code w.party.apu w.party.apv bits)
        contentKey = .ok wrapped) :
      Wrapping w enc n m ⟨contentKey, wrapped, .agreement epk w.party.apu w.party.apv⟩
  | password {hash : HashId} {bits : Nat} {password salt contentKey wrapped : Bytes}
      (hmethod : w.method = .password hash bits) (hkey : symmetricKey m = .ok password)
      (hlength : contentKey.length = n) (hsalt : salt.length = saltLength)
      (hwrap : wrapAes (passwordKey hash password w.algorithm.code salt w.limits.iterations
        (bits / 8)) contentKey = .ok wrapped) :
      Wrapping w enc n m ⟨contentKey, wrapped, .password salt w.limits.iterations⟩
  | rsa {hash : HashId} {k : RsaKey} {contentKey wrapped : Bytes} {e e' : Entropy}
      (hmethod : w.method = .rsaOaep hash) (hkey : m.effective = .pair (.rsa k))
      (hlength : contentKey.length = n)
      (hwrap : Rsa.encrypt k hash contentKey e = (.ok wrapped, e')) :
      Wrapping w enc n m ⟨contentKey, wrapped, .none⟩

section Wrap

variable {w w' : KeyWrapper} {enc : Algorithm} {n : Nat} {m : KeyMaterial} {wrapped : WrappedKey}
  {e e' : Entropy}

theorem length_of_bytes {ε : Type} {bytes : Bytes}
    (h : (Draw.bytes n : Draw ε Bytes) e = (.ok bytes, e')) : bytes.length = n := by
  cases h
  simp [Entropy.take]

theorem wrapRsa_eq_ok {hash : HashId} {contentKey text : Bytes}
    (h : w.wrapRsa hash m contentKey e = (.ok text, e')) :
    ∃ k, m.effective = .pair (.rsa k) ∧ Rsa.encrypt k hash contentKey e = (.ok text, e') := by
  cases heff : m.effective with
  | pair p =>
    cases p with
    | rsa k =>
      simp only [wrapRsa, heff] at h
      exact ⟨k, rfl, Draw.mapError_eq_ok.1 h⟩
    | ec k =>
      simp only [wrapRsa, heff] at h
      cases h
  | _ =>
    simp only [wrapRsa, heff] at h
    cases h

theorem wrapping_of_wrapMaterial {contentKey encrypted : Bytes} {parameters : WrapParameters}
    (hlength : contentKey.length = n)
    (h : w.wrapMaterial m contentKey e = (.ok (encrypted, parameters), e')) :
    Wrapping w enc n m ⟨contentKey, encrypted, parameters⟩ := by
  unfold wrapMaterial at h
  cases hmethod : w.method with
  | direct =>
    rw [hmethod] at h
    cases h
  | aesWrap bits =>
    simp only [hmethod] at h
    obtain ⟨kek, hkek, h⟩ := Draw.ofExcept_bind_eq_ok.1 h
    obtain ⟨text, htext, h⟩ := Draw.ofExcept_bind_eq_ok.1 h
    cases h
    exact .aes hmethod hkek hlength htext
  | gcmWrap bits =>
    simp only [hmethod] at h
    obtain ⟨iv, e₁, hiv, h⟩ := Draw.bind_eq_ok.1 h
    obtain ⟨kek, hkek, h⟩ := Draw.ofExcept_bind_eq_ok.1 h
    obtain ⟨⟨text, tag⟩, htext, h⟩ := Draw.ofExcept_bind_eq_ok.1 h
    cases h
    exact .gcm hmethod hkek hlength (length_of_bytes hiv) htext
  | agreement wrapBits =>
    cases wrapBits with
    | none =>
      rw [hmethod] at h
      cases h
    | some bits =>
      simp only [hmethod] at h
      obtain ⟨recipient, hrecipient, h⟩ := Draw.ofExcept_bind_eq_ok.1 h
      obtain ⟨⟨z, epk⟩, e₁, hagree, h⟩ := Draw.bind_eq_ok.1 h
      obtain ⟨text, htext, h⟩ := Draw.ofExcept_bind_eq_ok.1 h
      cases h
      exact .agreedWrap hmethod hrecipient hlength hagree htext
  | password hash bits =>
    simp only [hmethod] at h
    obtain ⟨salt, e₁, hsalt, h⟩ := Draw.bind_eq_ok.1 h
    obtain ⟨password, hpassword, h⟩ := Draw.ofExcept_bind_eq_ok.1 h
    obtain ⟨text, htext, h⟩ := Draw.ofExcept_bind_eq_ok.1 h
    cases h
    exact .password hmethod hpassword hlength (length_of_bytes hsalt) htext
  | rsaOaep hash =>
    simp only [hmethod] at h
    obtain ⟨text, e₁, htext, h⟩ := Draw.bind_eq_ok.1 h
    cases h
    obtain ⟨k, heff, hencrypt⟩ := wrapRsa_eq_ok htext
    exact .rsa hmethod heff hlength hencrypt

theorem wrapping_of_wrap {contentKey : Bytes}
    (h : w.wrap contentKey enc e = (.ok wrapped, e')) :
    ∃ n m, contentKeyLength enc = .ok n ∧ w.key.read = .ok m ∧ wrapped.contentKey = contentKey ∧
      Wrapping w enc n m wrapped := by
  obtain ⟨n, hn, h⟩ := Draw.ofExcept_bind_eq_ok.1 h
  by_cases hlength : contentKey.length = n
  · simp only [hlength, ne_eq, not_true_eq_false, if_false] at h
    obtain ⟨m, hm, h⟩ := Draw.ofExcept_bind_eq_ok.1 h
    obtain ⟨⟨encrypted, parameters⟩, e₁, hwrap, h⟩ := Draw.bind_eq_ok.1 h
    cases h
    exact ⟨n, m, hn, hm, rfl, wrapping_of_wrapMaterial hlength hwrap⟩
  · simp only [hlength, ne_eq, not_false_eq_true, if_true] at h
    cases h

theorem wrapping_of_wrapNew (h : w.wrapNew enc e = (.ok wrapped, e')) :
    ∃ n m, contentKeyLength enc = .ok n ∧ w.key.read = .ok m ∧ Wrapping w enc n m wrapped := by
  obtain ⟨n, hn, h⟩ := Draw.ofExcept_bind_eq_ok.1 h
  have hdrawn : (Draw.bytes n >>= fun contentKey => w.wrap contentKey enc) e = (.ok wrapped, e') →
      ∃ n m, contentKeyLength enc = .ok n ∧ w.key.read = .ok m ∧ Wrapping w enc n m wrapped := by
    intro h
    obtain ⟨contentKey, e₁, -, h⟩ := Draw.bind_eq_ok.1 h
    obtain ⟨n, m, hn, hm, -, hwrapping⟩ := wrapping_of_wrap h
    exact ⟨n, m, hn, hm, hwrapping⟩
  cases hmethod : w.method with
  | direct =>
    rw [hmethod] at h
    obtain ⟨h, -⟩ := Draw.ofExcept_eq_ok.1 h
    obtain ⟨m, hm, h⟩ := TokenSeal.bind_eq_ok.1 h
    obtain ⟨key, hkey, h⟩ := TokenSeal.bind_eq_ok.1 h
    by_cases hlength : key.length = n
    · simp only [hlength, ne_eq, not_true_eq_false, if_false] at h
      cases h
      exact ⟨n, m, hn, hm, .shared hmethod hkey hlength⟩
    · simp [hlength] at h
  | agreement wrapBits =>
    cases wrapBits with
    | none =>
      rw [hmethod] at h
      obtain ⟨m, hm, h⟩ := Draw.ofExcept_bind_eq_ok.1 h
      obtain ⟨recipient, hrecipient, h⟩ := Draw.ofExcept_bind_eq_ok.1 h
      obtain ⟨⟨z, epk⟩, e₁, hagree, h⟩ := Draw.bind_eq_ok.1 h
      cases h
      exact ⟨n, m, hn, hm, .agreed hmethod hrecipient hagree⟩
    | some bits =>
      rw [hmethod] at h
      exact hdrawn h
  | _ =>
    rw [hmethod] at h
    exact hdrawn h

theorem Wrapping.length (h : Wrapping w enc n m wrapped) : wrapped.contentKey.length = n := by
  cases h with
  | agreed => exact Agreement.length_derive _ _ _ _ _
  | _ => assumption

/-! ### Unwrapping -/

/-- The same key bound to the same algorithm, with limits that let the other one's passwords
through. -/
structure Undoes (w' w : KeyWrapper) : Prop where
  key : w'.key = w.key
  algorithm : w'.algorithm = w.algorithm
  method : w'.method = w.method
  iterations : ∀ hash bits, w.method = .password hash bits →
    1 ≤ w.limits.iterations ∧ w.limits.iterations ≤ w'.limits.maxIterations

/-- The encrypted key and the parameters are enough to get the content key back, however random
bytes fall. -/
theorem unwrapMaterial_of_wrapping (hundoes : w'.Undoes w) (hprivate : m.isPrivate = true)
    (hm : m.Recovers) (hlen : 16 ≤ n) (h : Wrapping w enc n m wrapped) (entropy : Entropy) :
    w'.unwrapMaterial m wrapped.encryptedKey wrapped.parameters enc n entropy =
      (.ok wrapped.contentKey, entropy) := by
  have hagreed : ∀ {recipient : EcKey} {z : Bytes} {epk : Jwk} {e e' : Entropy},
      ecKey m = .ok recipient → agreeFresh recipient e = (.ok (z, epk), e') →
        ∃ ephemeral, ephemeralKey epk = .ok ephemeral ∧ agreeWith recipient ephemeral = .ok z := by
    intro recipient z epk e e' hkey hagree
    have heff := ecKey_eq_ok.1 hkey
    rw [KeyMaterial.isPrivate_of_effective heff] at hprivate
    exact agreeWith_of_agreeFresh hprivate (hm.curve recipient heff) hagree
  have hlength := h.length
  unfold unwrapMaterial
  rw [hundoes.method]
  cases h with
  | shared hmethod hkey => simp [hmethod, hkey]
  | agreed hmethod hkey hagree =>
    obtain ⟨ephemeral, hephemeral, hz⟩ := hagreed hkey hagree
    simp [hmethod, unwrapAgreed, hkey, hephemeral, hz]
  | aes hmethod hkey hlength hwrap =>
    simp [hmethod, hkey, Except.bind, unwrapAes_wrapAes (by omega) hwrap]
  | gcm hmethod hkey hlength hiv hwrap =>
    obtain ⟨hopen, -⟩ := Sealer.openGcm?_sealGcm hiv hwrap
    simp [hmethod, hkey, hopen]
  | agreedWrap hmethod hkey hlength hagree hwrap =>
    obtain ⟨ephemeral, hephemeral, hz⟩ := hagreed hkey hagree
    simp [hmethod, unwrapAgreed, hkey, hephemeral, hz, hundoes.algorithm,
      unwrapAes_wrapAes (by omega) hwrap]
  | password hmethod hkey hlength hsalt hwrap =>
    have hcount : ¬ (w.limits.iterations = 0 ∨ w'.limits.maxIterations < w.limits.iterations) := by
      have := hundoes.iterations _ _ hmethod
      omega
    simp [hmethod, unwrapWithPassword, hcount, hsalt, saltLength, minSaltLength, hkey,
      hundoes.algorithm, unwrapAes_wrapAes (by omega) hwrap]
  | rsa hmethod hkey hlength hwrap =>
    rw [KeyMaterial.isPrivate_of_effective hkey] at hprivate
    obtain ⟨s, hs⟩ := Option.isSome_iff_exists.1 hprivate
    have hdecrypt := Rsa.decrypt?_encrypt hs (hm.rsa _ hkey) hwrap
    simp [hmethod, unwrapRsa, hkey, hs, hdecrypt, hlength]

theorem unwrap_of_wrapping (hundoes : w'.Undoes w) (henc : contentKeyLength enc = .ok n)
    (hread : w.key.read = .ok m) (hprivate : m.isPrivate = true) (hm : m.Recovers) (hlen : 16 ≤ n)
    (h : Wrapping w enc n m wrapped) (entropy : Entropy) :
    w'.unwrap wrapped.encryptedKey wrapped.parameters enc entropy =
      (.ok wrapped.contentKey, entropy) := by
  have hmaterial := unwrapMaterial_of_wrapping hundoes hprivate hm hlen h entropy
  rw [unwrap, henc, Draw.ofExcept_ok_bind, hundoes.key, hread, Draw.ofExcept_ok_bind,
    Draw.bind_ok hmaterial]
  simp [h.length]

/-- Nobody but the holder of a private key unwraps anything. -/
theorem isPrivate_of_unwrap {encrypted contentKey : Bytes} {parameters : WrapParameters}
    (hread : w.key.read = .ok m)
    (h : w.unwrap encrypted parameters enc e = (.ok contentKey, e')) : m.isPrivate = true := by
  have hsymmetric : ∀ {bytes}, symmetricKey m = .ok bytes → m.isPrivate = true := by
    intro bytes hkey
    unfold symmetricKey at hkey
    cases m <;> simp_all [KeyMaterial.effective, KeyMaterial.isPrivate]
  obtain ⟨n, hn, h⟩ := Draw.ofExcept_bind_eq_ok.1 h
  obtain ⟨m', hm', h⟩ := Draw.ofExcept_bind_eq_ok.1 h
  obtain rfl : m = m' := Except.ok.inj (hread.symm.trans hm')
  obtain ⟨key, e₁, h, -⟩ := Draw.bind_eq_ok.1 h
  unfold unwrapMaterial at h
  cases hmethod : w.method with
  | direct =>
    simp only [hmethod] at h
    split at h
    · cases h
    · exact hsymmetric (Draw.ofExcept_eq_ok.1 h).1
  | aesWrap bits =>
    simp only [hmethod] at h
    obtain ⟨kek, hkek, -⟩ := TokenSeal.bind_eq_ok.1 (Draw.ofExcept_eq_ok.1 h).1
    exact hsymmetric hkek
  | gcmWrap bits =>
    simp only [hmethod] at h
    split at h
    · obtain ⟨kek, hkek, -⟩ := TokenSeal.bind_eq_ok.1 (Draw.ofExcept_eq_ok.1 h).1
      exact hsymmetric hkek
    · cases h
  | agreement bits =>
    simp only [hmethod] at h
    cases parameters with
    | agreement epk apu apv =>
      obtain ⟨recipient, hrecipient, h⟩ := TokenSeal.bind_eq_ok.1 (Draw.ofExcept_eq_ok.1 h).1
      obtain ⟨ephemeral, -, h⟩ := TokenSeal.bind_eq_ok.1 h
      obtain ⟨z, hz, -⟩ := TokenSeal.bind_eq_ok.1 h
      rw [KeyMaterial.isPrivate_of_effective (ecKey_eq_ok.1 hrecipient)]
      cases hsecret : recipient.secret with
      | none => simp [agreeWith, hsecret] at hz
      | some d => simp [KeyPair.isPrivate, EcKey.isPrivate, hsecret]
    | _ => cases h
  | password hash bits =>
    simp only [hmethod] at h
    cases parameters with
    | password salt count =>
      have hunwrap := (Draw.ofExcept_eq_ok.1 h).1
      by_cases hcount : count = 0 ∨ w.limits.maxIterations < count
      · simp [unwrapWithPassword, hcount] at hunwrap
      · by_cases hsalt : salt.length < minSaltLength
        · simp [unwrapWithPassword, hcount, hsalt] at hunwrap
        · simp only [unwrapWithPassword, hcount, hsalt, if_false] at hunwrap
          obtain ⟨password, hpassword, -⟩ := TokenSeal.bind_eq_ok.1 hunwrap
          exact hsymmetric hpassword
    | _ => cases h
  | rsaOaep hash =>
    simp only [hmethod, unwrapRsa] at h
    cases heff : m.effective with
    | pair p =>
      cases p with
      | rsa k =>
        rw [KeyMaterial.isPrivate_of_effective heff]
        cases hsecret : k.secret with
        | none =>
          simp only [heff, hsecret] at h
          cases h
        | some s => simp [KeyPair.isPrivate, RsaKey.isPrivate, hsecret]
      | ec k =>
        simp only [heff] at h
        cases h
    | _ =>
      simp only [heff] at h
      cases h

theorem iterations_of_unwrap {hash : HashId} {bits : Nat} {contentKey : Bytes}
    (hmethod : w.method = .password hash bits) (hsame : w'.method = w.method)
    (hwrapping : Wrapping w enc n m wrapped)
    (h : w'.unwrap wrapped.encryptedKey wrapped.parameters enc e = (.ok contentKey, e')) :
    1 ≤ w.limits.iterations := by
  by_contra hnone
  have hzero : w.limits.iterations = 0 := by omega
  obtain ⟨n', -, h⟩ := Draw.ofExcept_bind_eq_ok.1 h
  obtain ⟨m', -, h⟩ := Draw.ofExcept_bind_eq_ok.1 h
  obtain ⟨key, e₁, h, -⟩ := Draw.bind_eq_ok.1 h
  cases hwrapping with
  | password =>
    simp only [unwrapMaterial, hsame, hmethod, hzero] at h
    obtain ⟨h, -⟩ := Draw.ofExcept_eq_ok.1 h
    simp [unwrapWithPassword] at h
  | _ => simp_all

/-! ### Parameters -/

/-- The fault that a method finds with parameters for their form, whatever the key is. A point that
is not on its curve is not one. -/
def formFault? (limits : PasswordLimits) : KeyManagement → WrapParameters → Option Fault
  | .gcmWrap _, .gcm _ _ => none
  | .gcmWrap _, _ => some (.format .missingGcmParameters)
  | .agreement _, .agreement epk _ _ =>
    match ephemeralKey epk with
    | .error cause => if cause.kind = .format then some cause else none
    | .ok _ => none
  | .agreement _, _ => some (.format .missingEphemeralKey)
  | .password _ _, .password salt count =>
    if count = 0 ∨ limits.maxIterations < count then
      some (.format (.iterationCount limits.maxIterations))
    else if salt.length < minSaltLength then some (.format .shortSalt)
    else none
  | .password _ _, _ => some (.format .missingPasswordParameters)
  | _, _ => none

theorem kind_of_formFault {limits : PasswordLimits} {method : KeyManagement}
    {parameters : WrapParameters} {cause : Fault}
    (h : formFault? limits method parameters = some cause) : cause.kind = .format := by
  revert h
  fun_cases formFault? limits method parameters <;> rintro ⟨⟩ <;> first | assumption | rfl

theorem ephemeralKey_of_agreeFresh {recipient : EcKey} {z : Bytes} {epk : Jwk}
    (h : agreeFresh recipient e = (.ok (z, epk), e')) : ∃ k, ephemeralKey epk = .ok k := by
  obtain ⟨fresh, e₁, -, h⟩ := Draw.bind_eq_ok.1 h
  cases hz : fresh.secret.bind fun d => sharedSecret? d recipient.point with
  | none =>
    simp only [hz] at h
    cases h
  | some z' =>
    simp only [hz] at h
    cases h
    exact ⟨_, ephemeralKey_ephemeralJwk fresh⟩

theorem Wrapping.formFault?_eq_none {limits : PasswordLimits} (h : Wrapping w enc n m wrapped)
    (hiterations : 1 ≤ w.limits.iterations ∧ w.limits.iterations ≤ limits.maxIterations) :
    formFault? limits w.method wrapped.parameters = none := by
  cases h with
  | agreed hmethod hkey hagree =>
    obtain ⟨k, hk⟩ := ephemeralKey_of_agreeFresh hagree
    simp [formFault?, hmethod, hk]
  | agreedWrap hmethod hkey hlength hagree =>
    obtain ⟨k, hk⟩ := ephemeralKey_of_agreeFresh hagree
    simp [formFault?, hmethod, hk]
  | password hmethod hkey hlength hsalt =>
    have hcount : ¬ (w.limits.iterations = 0 ∨ limits.maxIterations < w.limits.iterations) := by
      omega
    simp [formFault?, hmethod, hcount, hsalt, saltLength, minSaltLength]
  | _ hmethod => simp [formFault?, hmethod]

theorem Wrapping.fits (h : Wrapping w enc n m wrapped) (hcount : w.limits.iterations < 2 ^ 32) :
    wrapped.parameters.Fits w.method := by
  cases h with
  | password hmethod => rw [hmethod]; exact hcount
  | _ => simp_all [WrapParameters.Fits]

end Wrap

/-! ### Faults -/

/-- If it fails, then not for the form of what it was given. -/
def FormFree {α : Type} (x : Draw Fault α) : Prop :=
  ∀ e cause e', x e = (.error cause, e') → cause.kind ≠ .format

section Faults

variable {α β : Type}

theorem formFree_ok (a : α) : FormFree (Draw.ofExcept (.ok a)) := Draw.failsOnly_ok a

theorem formFree_error {cause : Fault} (h : cause.kind ≠ .format) :
    FormFree (Draw.ofExcept (.error cause) : Draw Fault α) :=
  Draw.failsOnly_error h

theorem FormFree.bind {x : Draw Fault α} {f : α → Draw Fault β} (hx : FormFree x)
    (hf : ∀ a, FormFree (f a)) : FormFree (x >>= f) :=
  Draw.FailsOnly.bind hx hf

theorem FormFree.ofExcept_bind {x : Except Fault α} {f : α → Except Fault β}
    (hx : FormFree (Draw.ofExcept x)) (hf : ∀ a, x = .ok a → FormFree (Draw.ofExcept (f a))) :
    FormFree (Draw.ofExcept (x >>= f)) :=
  Draw.FailsOnly.ofExcept_bind hx hf

theorem formFree_read (k : SecretKey) : FormFree (Draw.ofExcept k.read) := by
  unfold SecretKey.read
  split
  · exact formFree_ok _
  · exact formFree_error (by simp [Fault.kind])

theorem formFree_symmetricKey (m : KeyMaterial) : FormFree (Draw.ofExcept (symmetricKey m)) := by
  unfold symmetricKey
  split
  · exact formFree_ok _
  · exact formFree_error (by simp [Fault.kind])

theorem formFree_ecKey (m : KeyMaterial) : FormFree (Draw.ofExcept (ecKey m)) := by
  unfold ecKey
  split
  · exact formFree_ok _
  · exact formFree_error (by simp [Fault.kind])

theorem formFree_unwrapAes (kek wrapped : Bytes) :
    FormFree (Draw.ofExcept (unwrapAes kek wrapped)) := by
  unfold unwrapAes
  split
  · split
    · exact formFree_ok _
    · exact formFree_error (by simp [Fault.kind])
  · exact formFree_error (by simp [Fault.kind])

theorem formFree_agreeWith (recipient ephemeral : EcKey) :
    FormFree (Draw.ofExcept (agreeWith recipient ephemeral)) := by
  unfold agreeWith
  split
  · exact formFree_error (by simp [Fault.kind])
  · split
    · split
      · exact formFree_ok _
      · exact formFree_error (by simp [Fault.kind])
    · exact formFree_error (by simp [Fault.kind])

theorem formFree_bytes (n : Nat) : FormFree (Draw.bytes n) := Draw.failsOnly_bytes n

theorem formFree_unwrapRsa (h : HashId) (m : KeyMaterial) (encrypted : Bytes) (n : Nat) :
    FormFree (unwrapRsa h m encrypted n) := by
  unfold unwrapRsa
  split
  · split
    · exact formFree_error (by simp [Fault.kind])
    · split
      · split
        · exact formFree_ok _
        · exact formFree_bytes n
      · exact formFree_bytes n
  · exact formFree_error (by simp [Fault.kind])

theorem formFree_unwrapMaterial {w : KeyWrapper} {parameters : WrapParameters}
    (hform : formFault? w.limits w.method parameters = none) (m : KeyMaterial) (encrypted : Bytes)
    (enc : Algorithm) (n : Nat) :
    FormFree (w.unwrapMaterial m encrypted parameters enc n) := by
  unfold unwrapMaterial
  cases hmethod : w.method with
  | direct =>
    dsimp only
    split
    · exact formFree_error (by simp [Fault.kind])
    · exact formFree_symmetricKey m
  | aesWrap bits =>
    exact (formFree_symmetricKey m).ofExcept_bind fun kek _ => formFree_unwrapAes kek encrypted
  | gcmWrap bits =>
    rw [hmethod] at hform
    cases parameters with
    | gcm iv tag =>
      refine (formFree_symmetricKey m).ofExcept_bind fun kek _ => ?_
      split
      · exact formFree_ok _
      · exact formFree_error (by simp [Fault.kind])
    | _ => cases hform
  | agreement wrapBits =>
    rw [hmethod] at hform
    cases parameters with
    | agreement epk apu apv =>
      refine (formFree_ecKey m).ofExcept_bind fun recipient _ => ?_
      have hephemeral : FormFree (Draw.ofExcept (ephemeralKey epk)) := by
        cases hepk : ephemeralKey epk with
        | ok k => exact formFree_ok k
        | error cause =>
          refine formFree_error fun hkind => ?_
          simp [formFault?, hepk, hkind] at hform
      refine hephemeral.ofExcept_bind fun ephemeral _ => ?_
      refine (formFree_agreeWith recipient ephemeral).ofExcept_bind fun z _ => ?_
      cases wrapBits with
      | none =>
        dsimp only
        split
        · exact formFree_error (by simp [Fault.kind])
        · exact formFree_ok _
      | some bits => exact formFree_unwrapAes _ encrypted
    | _ => cases hform
  | password hash bits =>
    rw [hmethod] at hform
    cases parameters with
    | password salt count =>
      by_cases hcount : count = 0 ∨ w.limits.maxIterations < count
      · simp [formFault?, hcount] at hform
      · by_cases hsalt : salt.length < minSaltLength
        · simp [formFault?, hcount, hsalt] at hform
        · simp only [unwrapWithPassword, hcount, hsalt, if_false]
          exact (formFree_symmetricKey m).ofExcept_bind fun password _ =>
            formFree_unwrapAes _ encrypted
    | _ => cases hform
  | rsaOaep hash =>
    dsimp only
    exact formFree_unwrapRsa hash m encrypted n

theorem formFree_unwrap {w : KeyWrapper} {parameters : WrapParameters}
    (hform : formFault? w.limits w.method parameters = none) (encrypted : Bytes)
    (enc : Algorithm) : FormFree (w.unwrap encrypted parameters enc) := by
  have hlength : FormFree (Draw.ofExcept (contentKeyLength enc)) := by
    unfold contentKeyLength
    split
    · exact formFree_ok _
    · exact formFree_error (by simp [Fault.kind])
  refine hlength.bind fun n => (formFree_read w.key).bind fun m => ?_
  refine (formFree_unwrapMaterial hform m encrypted enc n).bind fun key => ?_
  split
  · exact formFree_error (by simp [Fault.kind])
  · exact formFree_ok _

theorem unwrap_of_formFault {w : KeyWrapper} {parameters : WrapParameters} {enc : Algorithm}
    {n : Nat} {m : KeyMaterial} {cause : Fault} (henc : contentKeyLength enc = .ok n)
    (hread : w.key.read = .ok m)
    (hkey : ∀ bits, w.method = .agreement bits → ∃ k, ecKey m = .ok k)
    (h : formFault? w.limits w.method parameters = some cause) (encrypted : Bytes) (e : Entropy) :
    w.unwrap encrypted parameters enc e = (.error cause, e) := by
  have hmaterial : w.unwrapMaterial m encrypted parameters enc n e = (.error cause, e) := by
    unfold unwrapMaterial
    cases hmethod : w.method with
    | gcmWrap bits =>
      rw [hmethod] at h
      cases parameters with
      | gcm iv tag => cases h
      | _ => cases h; rfl
    | agreement bits =>
      obtain ⟨k, hk⟩ := hkey bits hmethod
      rw [hmethod] at h
      cases parameters with
      | agreement epk apu apv =>
        cases hepk : ephemeralKey epk with
        | ok ephemeral => simp [formFault?, hepk] at h
        | error fault =>
          simp only [formFault?, hepk, Option.ite_none_right_eq_some, Option.some.injEq] at h
          simp [unwrapAgreed, hk, hepk, h.2]
      | _ => cases h; rfl
    | password hash bits =>
      rw [hmethod] at h
      cases parameters with
      | password salt count =>
        by_cases hcount : count = 0 ∨ w.limits.maxIterations < count
        · simp only [formFault?, hcount, if_true, Option.some.injEq] at h
          simp [unwrapWithPassword, hcount, h]
        · simp only [formFault?, hcount, if_false, Option.ite_none_right_eq_some,
            Option.some.injEq] at h
          simp [unwrapWithPassword, hcount, h.1, h.2]
      | _ => cases h; rfl
    | _ =>
      rw [hmethod] at h
      cases h
  rw [unwrap, henc, Draw.ofExcept_ok_bind, hread, Draw.ofExcept_ok_bind, Draw.bind_error hmaterial]

end Faults

end KeyWrapper

end TokenSeal
