import TokenSeal.Proofs.KeySearch
import TokenSeal.Proofs.Trapdoor

/-! Wrapping under the built-in algorithms: when it gives something, what travels, and that the
content key comes back. -/

namespace TokenSeal

/-! ### The built-in algorithms -/

def Algorithm.rsaOaep : Algorithm :=
  ⟨"RSA-OAEP-256", .rsa, [rsaSizes], rsaDefaultBits, .keyManagement (.rsaOaep .sha256)⟩

/-- The forms of the built-in key management algorithms. Where a key is wrapped under AES, the
length of the wrapping key is one that AES has. -/
inductive Algorithm.Managed : Algorithm → Prop where
  | direct : Managed direct
  | aes (code : String) {l : Nat} (length : Aes.isKeyLength l = true) :
      Managed (wrapping code (8 * l) (.aesWrap (8 * l)))
  | gcm (code : String) {l : Nat} (length : Aes.isKeyLength l = true) :
      Managed (wrapping code (8 * l) (.gcmWrap (8 * l)))
  | agreed (code : String) : Managed (agreement code none)
  | agreedWrap (code : String) {l : Nat} (length : Aes.isKeyLength l = true) :
      Managed (agreement code (some (8 * l)))
  | password (code : String) (hash : HashId) {l : Nat} (length : Aes.isKeyLength l = true) :
      Managed (password code hash (8 * l))
  | rsa : Managed rsaOaep

theorem Algorithm.managed_of_mem {a : Algorithm} (h : a ∈ keyManagement) : a.Managed := by
  simp only [keyManagement, List.mem_cons, List.not_mem_nil, or_false] at h
  obtain rfl | rfl | rfl | rfl | rfl | rfl | rfl | rfl | rfl | rfl | rfl | rfl | rfl | rfl | rfl := h
  exacts [.direct, .aes _ (l := 16) rfl, .aes _ (l := 24) rfl, .aes _ (l := 32) rfl,
    .gcm _ (l := 16) rfl, .gcm _ (l := 24) rfl, .gcm _ (l := 32) rfl, .agreed _,
    .agreedWrap _ (l := 16) rfl, .agreedWrap _ (l := 24) rfl, .agreedWrap _ (l := 32) rfl,
    .password _ _ (l := 16) rfl, .password _ _ (l := 24) rfl, .password _ _ (l := 32) rfl, .rsa]

/-- Two algorithms send no key along. -/
def Algorithm.SendsNothing (a : Algorithm) : Prop := a.code = "dir" ∨ a.code = "ECDH-ES"

theorem Algorithm.sendsNothing_iff {a : Algorithm} {method : KeyManagement}
    (h : a ∈ keyManagement) (hmethod : a.method = .keyManagement method) :
    a.SendsNothing ↔ method = .direct ∨ method = .agreement none := by
  have hall : ∀ a ∈ keyManagement, ∀ method, a.method = .keyManagement method →
      (a.SendsNothing ↔ method = .direct ∨ method = .agreement none) := by
    simp [keyManagement, SendsNothing, direct, wrapping, agreement, password]
  exact hall a h method hmethod

/-! ### Keys of the right type and size -/

section Keys

variable {k : SecretKey} {a : Algorithm} {m : KeyMaterial}

theorem SecretKey.Suits.profile (h : k.Suits a) (hread : k.read = .ok m) :
    m.effective.keyType = a.keyType ∧ a.isLegalSize m.sizeBits = true := by
  have hprofile := k.profile_eq m (SecretKey.read_eq_ok.1 hread)
  obtain ⟨-, htype, hsize⟩ := h
  rw [hprofile] at htype hsize
  exact ⟨htype, hsize⟩

theorem SecretKey.Suits.symmetric (h : k.Suits a) (hread : k.read = .ok m)
    (ha : a.keyType = .symmetric) :
    ∃ bytes, m = .symmetric bytes ∧ a.isLegalSize (8 * bytes.length) = true := by
  obtain ⟨htype, hsize⟩ := h.profile hread
  rw [ha] at htype
  cases m with
  | none => cases htype
  | symmetric bytes => exact ⟨bytes, rfl, hsize⟩
  | pair p => cases p <;> cases htype
  | certificate der p => cases p <;> cases htype

theorem SecretKey.Suits.rsa (h : k.Suits a) (hread : k.read = .ok m) (ha : a.keyType = .rsa) :
    ∃ key, m.effective = .pair (.rsa key) ∧ a.isLegalSize (8 * key.width) = true := by
  obtain ⟨htype, hsize⟩ := h.profile hread
  rw [ha] at htype
  cases m with
  | none => cases htype
  | symmetric bytes => cases htype
  | pair p =>
    cases p with
    | rsa key => exact ⟨key, rfl, hsize⟩
    | ec key => cases htype
  | certificate der p =>
    cases p with
    | rsa key => exact ⟨key, rfl, hsize⟩
    | ec key => cases htype

theorem Algorithm.isLegalSize_exact {code : String} {t : KeyType} {bits bits' : Nat}
    {method : Method} :
    (Algorithm.mk code t [.exact bits] bits method).isLegalSize bits' = true ↔ bits' = bits := by
  simp only [isLegalSize, List.isEmpty_cons, List.any_cons, List.any_nil, Bool.or_false,
    Bool.false_or, KeySizes.exact, KeySizes.contains]
  by_cases h : bits' < bits ∨ bits < bits'
  · simp [h]
    omega
  · simp [h]

theorem Algorithm.le_of_isLegalSize_rsa {code : String} {bits : Nat} {method : Method}
    (h : (Algorithm.mk code .rsa [rsaSizes] rsaDefaultBits method).isLegalSize bits = true) :
    2048 ≤ bits := by
  simp [isLegalSize, KeySizes.contains, rsaSizes] at h
  exact h.1.1

theorem KeyWrapper.symmetricKey_symmetric (bytes : Bytes) :
    symmetricKey (.symmetric bytes) = .ok bytes := rfl

end Keys

/-! ### Fresh keys -/

/-- One of the numbers that the stream gives for a private key is one. -/
def CurveId.Draws (c : CurveId) (e : Entropy) : Prop :=
  ∃ i < SecretKey.scalarAttempts,
    (EcKey.ofNat? c (Bytes.toNat ((e.advance (i * c.width)).take c.width))).isSome = true

/-- Whoever agrees with a key comes to a secret. -/
def EcKey.Meets (k : EcKey) : Prop :=
  ∀ d (p : Point k.curve), 0 < d → d < k.curve.data.order → Point.ofScalar? k.curve d = some p →
    ∃ z, KeyWrapper.sharedSecret? d k.point = some z

theorem EcKey.secret_of_ofNat? {c : CurveId} {d : Nat} {k : EcKey} (h : ofNat? c d = some k) :
    k.secret = some d := by
  unfold ofNat? at h
  split at h
  · split at h
    · cases h
      rfl
    · cases h
  · cases h

theorem SecretKey.drawEcKey_of_draws {c : CurveId} {e : Entropy} {fuel : Nat}
    (h : ∃ i < fuel,
      (EcKey.ofNat? c (Bytes.toNat ((e.advance (i * c.width)).take c.width))).isSome = true) :
    ∃ k e', drawEcKey c fuel e = (.ok k, e') ∧ k.secret.isSome = true := by
  induction fuel generalizing e with
  | zero =>
    obtain ⟨i, hi, -⟩ := h
    omega
  | succ fuel ih =>
    obtain ⟨i, hi, hdraw⟩ := h
    cases hfirst : EcKey.ofNat? c (Bytes.toNat (e.take c.width)) with
    | some k =>
      refine ⟨k, e.advance c.width, ?_, by rw [EcKey.secret_of_ofNat? hfirst]; rfl⟩
      rw [drawEcKey, Draw.bind_ok (Draw.bytes_apply c.width e)]
      simp only [hfirst]
      rfl
    | none =>
      cases i with
      | zero =>
        have hzero : e.advance (0 * c.width) = e := by simp [Entropy.advance]
        rw [hzero, hfirst] at hdraw
        cases hdraw
      | succ i =>
        have hlater : e.advance ((i + 1) * c.width) =
            (e.advance c.width).advance (i * c.width) := by
          simp only [Entropy.advance, Nat.succ_mul]
          congr 1
          omega
        rw [hlater] at hdraw
        obtain ⟨k, e', hk, hsecret⟩ := ih ⟨i, by omega, hdraw⟩
        refine ⟨k, e', ?_, hsecret⟩
        rw [drawEcKey, Draw.bind_ok (Draw.bytes_apply c.width e)]
        simp only [hfirst]
        exact hk

/-! ### The key of the base point -/

section Base

variable {c : CurveId}

theorem Jacobian.mul_one (field : Nat) (a : Jacobian) : mul field 1 a = a := by
  have hlog : Nat.log2 1 = 0 := by decide
  simp [mul, hlog, mulBits, double, infinity, add]

theorem Point.ofJacobian?_jacobian (p : Point c) : ofJacobian? c p.jacobian = some p := by
  have hinverse : Modular.inverse? 1 c.data.field = some 1 := by cases c <;> decide +kernel
  have hon := p.onCurve
  simp only [CurveId.contains, Bool.and_eq_true, decide_eq_true_eq] at hon
  have hx := Nat.mod_eq_of_lt hon.1.1
  have hy := Nat.mod_eq_of_lt hon.1.2
  simp [ofJacobian?, jacobian, Jacobian.affine?, hinverse, hx, hy, ofCoordinates?, p.onCurve]

theorem Point.mul?_one (p : Point c) : p.mul? 1 = some p := by
  rw [mul?, Jacobian.mul_one, ofJacobian?_jacobian]

def Point.ofBase (c : CurveId) : Point c := ⟨c.data.baseX, c.data.baseY, c.contains_base⟩

/-- The private key 1, whose point is the base point. -/
def EcKey.ofBase (c : CurveId) : EcKey where
  curve := c
  point := .ofBase c
  secret := some 1
  secret_valid := by
    rintro d ⟨⟩
    exact ⟨by decide, by cases c <;> decide, (Point.ofBase c).mul?_one⟩

theorem EcKey.agrees_ofBase (c : CurveId) : (ofBase c).Agrees := by
  rintro d ⟨⟩ d' p' - - hpoint
  have hmul : (Point.ofBase c).mul? d' = some p' := hpoint
  rw [KeyWrapper.sharedSecret?, KeyWrapper.sharedSecret?, Point.mul?_one]
  exact congrArg (Option.map _) hmul.symm

theorem EcKey.meets_ofBase (c : CurveId) : (ofBase c).Meets := by
  rintro d p - - hpoint
  have hmul : (Point.ofBase c).mul? d = some p := hpoint
  exact ⟨_, congrArg (Option.map _) hmul⟩

end Base

namespace KeyWrapper

theorem agreeFresh_of_draws {recipient : EcKey} {e : Entropy} (hmeets : recipient.Meets)
    (hdraws : recipient.curve.Draws e) :
    ∃ z epk e', agreeFresh recipient e = (.ok (z, epk), e') := by
  obtain ⟨fresh, e', hfresh, hprivate⟩ := SecretKey.drawEcKey_of_draws hdraws
  have hsame := SecretKey.curve_of_drawEcKey hfresh
  obtain ⟨d, hd⟩ := Option.isSome_iff_exists.1 hprivate
  obtain ⟨curve, point, secret, hvalid⟩ := fresh
  obtain rfl : curve = recipient.curve := hsame
  obtain ⟨hpos, hlt, hpoint⟩ := hvalid d hd
  obtain ⟨z, hz⟩ := hmeets d point hpos hlt hpoint
  have hshared : (secret.bind fun d => sharedSecret? d recipient.point) = some z := by
    rw [show secret = some d from hd, Option.bind_some, hz]
  refine ⟨z, ephemeralJwk ⟨recipient.curve, point, secret, hvalid⟩, e', ?_⟩
  rw [agreeFresh, Draw.bind_ok hfresh]
  simp only [hshared]
  rfl

/-! ### Wrapping succeeds -/

theorem exists_wrapAes {kek key : Bytes} (hkek : Aes.isKeyLength kek.length = true)
    (hkey : 8 ∣ key.length) : ∃ wrapped, wrapAes kek key = .ok wrapped := by
  have hmod : key.length % 8 = 0 := Nat.mod_eq_zero_of_dvd hkey
  exact ⟨_, by rw [wrapAes, if_neg (by simp [hkek]), if_neg (by simp [hmod])]⟩

theorem exists_encrypt {k : RsaKey} {hash : HashId} {message : Bytes}
    (hroom : message.length + 2 * hash.size + 2 ≤ k.width) (e : Entropy) :
    ∃ text, text.length = k.width ∧
      Rsa.encrypt k hash message e = (.ok text, e.advance hash.size) := by
  rw [Rsa.encrypt, Draw.bind_ok (Draw.bytes_apply hash.size e)]
  cases hblock : Rsa.oaepBlock? hash k.width (e.take hash.size) message with
  | none =>
    unfold Rsa.oaepBlock? at hblock
    rw [if_neg (by omega)] at hblock
    cases hblock
  | some block => exact ⟨_, Bytes.length_ofNat _ _, rfl⟩

section Success

variable {w : KeyWrapper} {m : KeyMaterial} {kek contentKey : Bytes} {bits l : Nat} {e : Entropy}

theorem exists_wrapMaterial_aes (hmethod : w.method = .aesWrap bits)
    (hkek : Aes.isKeyLength kek.length = true) (hdvd : 8 ∣ contentKey.length) :
    ∃ found e', w.wrapMaterial (.symmetric kek) contentKey e = (.ok found, e') := by
  obtain ⟨wrapped, hwrapped⟩ := exists_wrapAes hkek hdvd
  refine ⟨(wrapped, .none), e, ?_⟩
  simp only [wrapMaterial, hmethod, symmetricKey_symmetric]
  rw [Draw.ofExcept_ok_bind, hwrapped, Draw.ofExcept_ok_bind]
  rfl

theorem exists_wrapMaterial_gcm (hmethod : w.method = .gcmWrap bits)
    (hkek : Aes.isKeyLength kek.length = true) :
    ∃ found e', w.wrapMaterial (.symmetric kek) contentKey e = (.ok found, e') := by
  let iv := e.take Gcm.ivLength
  let sealed := Gcm.encrypt (.ofKey kek) iv [] contentKey
  have hsealed : Sealer.sealGcm kek iv contentKey [] = .ok sealed := by
    rw [Sealer.sealGcm, if_pos hkek]
  refine ⟨(sealed.1, .gcm iv sealed.2), e.advance Gcm.ivLength, ?_⟩
  simp only [wrapMaterial, hmethod, symmetricKey_symmetric]
  rw [Draw.bind_ok (Draw.bytes_apply Gcm.ivLength e), Draw.ofExcept_ok_bind, hsealed,
    Draw.ofExcept_ok_bind]
  rfl

theorem exists_wrapMaterial_agreed {recipient : EcKey} {z : Bytes} {epk : Jwk}
    {e' : Entropy} (hmethod : w.method = .agreement (some (8 * l)))
    (hl : Aes.isKeyLength l = true) (hrecipient : ecKey m = .ok recipient)
    (hfresh : agreeFresh recipient e = (.ok (z, epk), e')) (hdvd : 8 ∣ contentKey.length) :
    ∃ found e', w.wrapMaterial m contentKey e = (.ok found, e') := by
  let kek := Agreement.derive z w.algorithm.code w.party.apu w.party.apv (8 * l)
  obtain ⟨wrapped, hwrapped⟩ : ∃ wrapped, wrapAes kek contentKey = .ok wrapped :=
    exists_wrapAes (by rw [Agreement.length_derive, hl]) hdvd
  refine ⟨(wrapped, .agreement epk w.party.apu w.party.apv), e', ?_⟩
  simp only [wrapMaterial, hmethod, hrecipient]
  rw [Draw.ofExcept_ok_bind, Draw.bind_ok hfresh]
  dsimp only
  rw [hwrapped, Draw.ofExcept_ok_bind]
  rfl

theorem exists_wrapMaterial_password {hash : HashId} (hmethod : w.method = .password hash (8 * l))
    (hl : Aes.isKeyLength l = true) (hdvd : 8 ∣ contentKey.length)
    (password : Bytes) :
    ∃ found e', w.wrapMaterial (.symmetric password) contentKey e = (.ok found, e') := by
  let salt := e.take saltLength
  let kek := passwordKey hash password w.algorithm.code salt w.limits.iterations (8 * l / 8)
  have hkek : kek.length = l :=
    (Pbkdf2.length_derive _ _ _ _ _).trans (Nat.mul_div_cancel_left l (by omega))
  obtain ⟨wrapped, hwrapped⟩ : ∃ wrapped, wrapAes kek contentKey = .ok wrapped :=
    exists_wrapAes (by rw [hkek, hl]) hdvd
  refine ⟨(wrapped, .password salt w.limits.iterations), e.advance saltLength, ?_⟩
  simp only [wrapMaterial, hmethod, symmetricKey_symmetric]
  rw [Draw.bind_ok (Draw.bytes_apply saltLength e), Draw.ofExcept_ok_bind, hwrapped,
    Draw.ofExcept_ok_bind]
  rfl

theorem wrapMaterial_rsa {hash : HashId} {key : RsaKey} {text : Bytes} {e' : Entropy}
    (hmethod : w.method = .rsaOaep hash) (hkey : m.effective = .pair (.rsa key))
    (hencrypt : Rsa.encrypt key hash contentKey e = (.ok text, e')) :
    w.wrapMaterial m contentKey e = (.ok (text, .none), e') := by
  simp only [wrapMaterial, hmethod, wrapRsa, hkey]
  exact Draw.bind_ok (Draw.mapError_eq_ok.2 hencrypt)

/-- Every content key of a length that AES can wrap and RSA has room for is wrapped. -/
theorem exists_wrapMaterial {k : SecretKey} {a : Algorithm} {method : KeyManagement}
    {limits : PasswordLimits} {party : PartyInfo} (ha : a.Managed)
    (hmethod : a.method = .keyManagement method) (hk : k.Suits a) (hread : k.read = .ok m)
    (hwraps : ¬ (method = .direct ∨ method = .agreement none)) (hdvd : 8 ∣ contentKey.length)
    (hshort : contentKey.length ≤ 64)
    (hagree : ∀ key, ecKey m = .ok key → key.Meets ∧ key.curve.Draws e) :
    ∃ found e', wrapMaterial ⟨k, a, method, limits, party⟩ m contentKey e = (.ok found, e') := by
  cases ha with
  | direct =>
    cases hmethod
    exact absurd (.inl rfl) hwraps
  | agreed code =>
    cases hmethod
    exact absurd (.inr rfl) hwraps
  | @aes code l hl =>
    cases hmethod
    obtain ⟨kek, rfl, hsize⟩ := hk.symmetric hread rfl
    have hkek : kek.length = l :=
      Nat.eq_of_mul_eq_mul_left (by omega) (Algorithm.isLegalSize_exact.1 hsize)
    exact exists_wrapMaterial_aes rfl (by rw [hkek, hl]) hdvd
  | @gcm code l hl =>
    cases hmethod
    obtain ⟨kek, rfl, hsize⟩ := hk.symmetric hread rfl
    have hkek : kek.length = l :=
      Nat.eq_of_mul_eq_mul_left (by omega) (Algorithm.isLegalSize_exact.1 hsize)
    exact exists_wrapMaterial_gcm rfl (by rw [hkek, hl])
  | @agreedWrap code l hl =>
    cases hmethod
    obtain ⟨recipient, hrecipient⟩ := SecretKey.ecKey_of_effective hread hk.2.1
    obtain ⟨hmeets, hdraws⟩ := hagree recipient hrecipient
    obtain ⟨z, epk, e', hfresh⟩ := agreeFresh_of_draws hmeets hdraws
    exact exists_wrapMaterial_agreed rfl hl hrecipient hfresh hdvd
  | @password code hash l hl =>
    cases hmethod
    obtain ⟨password, rfl, -⟩ := hk.symmetric hread rfl
    exact exists_wrapMaterial_password rfl hl hdvd password
  | rsa =>
    cases hmethod
    obtain ⟨key, heff, hsize⟩ := hk.rsa hread rfl
    have hwidth : 2048 ≤ 8 * key.width := Algorithm.le_of_isLegalSize_rsa hsize
    have hroom : contentKey.length + 2 * HashId.sha256.size + 2 ≤ key.width := by
      simp only [HashId.size]
      omega
    obtain ⟨text, -, hencrypt⟩ := exists_encrypt hroom e
    exact ⟨(text, .none), e.advance HashId.sha256.size, wrapMaterial_rsa rfl heff hencrypt⟩

end Success

/-! ### What travels -/

theorem wrapAes_ne_nil {kek key wrapped : Bytes} (hlen : 16 ≤ key.length)
    (h : wrapAes kek key = .ok wrapped) : wrapped ≠ [] := by
  rintro rfl
  have hback := unwrapAes_wrapAes hlen h
  have hshort : unwrapAes kek [] = .error .integrity := by
    unfold unwrapAes
    split <;> rfl
  rw [hshort] at hback
  cases hback

theorem length_sealGcm {kek iv text aad wrapped tag : Bytes}
    (h : Sealer.sealGcm kek iv text aad = .ok (wrapped, tag)) : wrapped.length = text.length := by
  unfold Sealer.sealGcm at h
  split at h
  · have hwrapped : (Gcm.encrypt (.ofKey kek) iv aad text).1 = wrapped :=
      congrArg Prod.fst (Except.ok.inj h)
    rw [← hwrapped]
    exact Gcm.length_applyKeystream _ _ _
  · cases h

theorem encrypt_ne_nil {k : RsaKey} {hash : HashId} {message text : Bytes} {e e' : Entropy}
    (h : Rsa.encrypt k hash message e = (.ok text, e')) : text ≠ [] := by
  obtain ⟨seed, e₁, -, h⟩ := Draw.bind_eq_ok.1 h
  cases hblock : Rsa.oaepBlock? hash k.width seed message with
  | none =>
    simp only [hblock] at h
    cases h
  | some block =>
    simp only [hblock] at h
    cases h
    unfold Rsa.oaepBlock? at hblock
    split at hblock
    · cases hblock
    · intro hnil
      have hlength := congrArg List.length hnil
      rw [Bytes.length_ofNat, List.length_nil] at hlength
      omega

section Wrapped

variable {w : KeyWrapper} {enc : Algorithm} {n : Nat} {m : KeyMaterial} {wrapped : WrappedKey}
  {contentKey : Bytes} {e e' : Entropy}

theorem Wrapping.encryptedKey_eq_nil (h : Wrapping w enc n m wrapped) (hlow : 16 ≤ n) :
    wrapped.encryptedKey = [] ↔ w.method = .direct ∨ w.method = .agreement none := by
  cases h with
  | shared hmethod _ _ => exact iff_of_true rfl (.inl hmethod)
  | agreed hmethod _ _ => exact iff_of_true rfl (.inr hmethod)
  | aes hmethod _ hlength hwrap =>
    exact iff_of_false (wrapAes_ne_nil (by omega) hwrap) (by simp [hmethod])
  | @gcm _ _ _ _ text _ hmethod _ hlength _ hwrap =>
    refine iff_of_false (fun hnil : text = [] => ?_) (by simp [hmethod])
    have hsame := length_sealGcm hwrap
    rw [hnil, List.length_nil] at hsame
    omega
  | agreedWrap hmethod _ hlength _ hwrap =>
    exact iff_of_false (wrapAes_ne_nil (by omega) hwrap) (by simp [hmethod])
  | password hmethod _ hlength _ hwrap =>
    exact iff_of_false (wrapAes_ne_nil (by omega) hwrap) (by simp [hmethod])
  | rsa hmethod _ _ hwrap => exact iff_of_false (encrypt_ne_nil hwrap) (by simp [hmethod])

theorem wrap_of_sendsNothing (hmethod : w.method = .direct ∨ w.method = .agreement none)
    (contentKey : Bytes) (enc : Algorithm) (e : Entropy) :
    ∃ cause, (w.wrap contentKey enc e).1 = .error cause := by
  cases hwrap : (w.wrap contentKey enc e).1 with
  | error cause => exact ⟨cause, rfl⟩
  | ok wrapped =>
    obtain ⟨n, -, h⟩ := Draw.ofExcept_bind_eq_ok.1 (Prod.ext hwrap rfl)
    by_cases hlength : contentKey.length = n
    · simp only [hlength, ne_eq, not_true_eq_false, if_false] at h
      obtain ⟨m, -, h⟩ := Draw.ofExcept_bind_eq_ok.1 h
      obtain ⟨found, e₁, h, -⟩ := Draw.bind_eq_ok.1 h
      unfold wrapMaterial at h
      obtain hdirect | hagreed := hmethod
      · rw [hdirect] at h
        cases h
      · rw [hagreed] at h
        cases h
    · simp only [hlength, ne_eq, not_false_eq_true, if_true] at h
      cases h

theorem wrap_of_wrapMaterial {found : Bytes × WrapParameters}
    (henc : contentKeyLength enc = .ok contentKey.length) (hread : w.key.read = .ok m)
    (h : w.wrapMaterial m contentKey e = (.ok found, e')) :
    w.wrap contentKey enc e = (.ok ⟨contentKey, found.1, found.2⟩, e') := by
  rw [wrap, henc, Draw.ofExcept_ok_bind]
  simp only [ne_eq, not_true_eq_false, if_false]
  rw [hread, Draw.ofExcept_ok_bind, Draw.bind_ok h]
  rfl

/-- A new content key is what is drawn first. -/
theorem wrapNew_of_wrapMaterial {found : Bytes × WrapParameters}
    (hmethod : ¬ (w.method = .direct ∨ w.method = .agreement none))
    (henc : contentKeyLength enc = .ok n) (hread : w.key.read = .ok m)
    (h : w.wrapMaterial m (e.take n) (e.advance n) = (.ok found, e')) :
    w.wrapNew enc e = (.ok ⟨e.take n, found.1, found.2⟩, e') := by
  have hlength : contentKeyLength enc = .ok (e.take n).length := by simp [henc, Entropy.take]
  have hdrawn : (Draw.bytes n >>= fun contentKey => w.wrap contentKey enc) e =
      (.ok ⟨e.take n, found.1, found.2⟩, e') :=
    (Draw.bind_ok (Draw.bytes_apply n e)).trans (wrap_of_wrapMaterial hlength hread h)
  rw [wrapNew, henc, Draw.ofExcept_ok_bind]
  cases hcase : w.method with
  | direct => exact absurd (.inl hcase) hmethod
  | agreement wrapBits =>
    cases wrapBits with
    | none => exact absurd (.inr hcase) hmethod
    | some bits => exact hdrawn
  | _ => exact hdrawn

theorem wrapping_of_wrapped (henc : contentKeyLength enc = .ok n) (hread : w.key.read = .ok m)
    (h : w.wrapNew enc e = (.ok wrapped, e') ∨
      w.wrap wrapped.contentKey enc e = (.ok wrapped, e')) : Wrapping w enc n m wrapped := by
  obtain hnew | hgiven := h
  · obtain ⟨n', m', hn', hm', hform⟩ := wrapping_of_wrapNew hnew
    obtain rfl : n' = n := Except.ok.inj (hn'.symm.trans henc)
    obtain rfl : m' = m := Except.ok.inj (hm'.symm.trans hread)
    exact hform
  · obtain ⟨n', m', hn', hm', -, hform⟩ := wrapping_of_wrap hgiven
    obtain rfl : n' = n := Except.ok.inj (hn'.symm.trans henc)
    obtain rfl : m' = m := Except.ok.inj (hm'.symm.trans hread)
    exact hform

end Wrapped

/-! ### There and back -/

/-- Whoever has the private key gets the content key back from what is sent with a wrapped key, as
many bytes as the content encryption takes, whatever the parties are called on the other side and
however random bytes fall. Nothing but parameters is sent by the two algorithms that share or
agree on the content key, and these wrap no given key; the others send something, and they wrap the
given keys of the right length and no others. -/
theorem unwrap_wrapped {a : Algorithm} {k : SecretKey} {m : KeyMaterial} {w : KeyWrapper}
    {enc : Algorithm} {n iterations maxIterations : Nat} (ha : a ∈ Algorithm.keyManagement)
    (hiterations : 1 ≤ iterations)
    (hbind : KeyWrapper.bind (.make iterations maxIterations) k a = .ok w)
    (hread : k.read = .ok m) (hprivate : m.isPrivate = true) (hm : m.Recovers)
    (henc : contentKeyLength enc = .ok n) (hdvd : 8 ∣ n) (hlow : 16 ≤ n) (hhigh : n ≤ 64)
    (party party' : PartyInfo) :
    let sender := w.withParty party
    let recipient := w.withParty party'
    (∀ wrapped e e', (sender.wrapNew enc e = (.ok wrapped, e') ∨
        sender.wrap wrapped.contentKey enc e = (.ok wrapped, e')) →
      wrapped.contentKey.length = n ∧ (wrapped.encryptedKey = [] ↔ a.SendsNothing) ∧
        ∀ entropy, recipient.unwrap wrapped.encryptedKey wrapped.parameters enc entropy =
          (.ok wrapped.contentKey, entropy)) ∧
    (∀ contentKey wrapped e e', sender.wrap contentKey enc e = (.ok wrapped, e') →
      wrapped.contentKey = contentKey) ∧
    (a.SendsNothing → ∀ contentKey e, ∃ cause,
      (sender.wrap contentKey enc e).1 = .error cause) ∧
    (¬ a.SendsNothing → ∀ contentKey e,
      (∀ key, ecKey m = .ok key → key.Meets ∧ key.curve.Draws e) →
      ((∃ wrapped, (sender.wrap contentKey enc e).1 = .ok wrapped) ↔ contentKey.length = n)) := by
  obtain ⟨method, hmethod, hk, rfl⟩ := KeyWrapper.bind_eq_ok.1 hbind
  have hsends := Algorithm.sendsNothing_iff ha hmethod
  intro sender recipient
  have hundoes : recipient.Undoes sender := by
    refine ⟨rfl, rfl, rfl, fun _ _ _ => ⟨hiterations, ?_⟩⟩
    exact Nat.le_max_right _ _
  refine ⟨fun wrapped e e' h => ?_, fun contentKey wrapped e e' h => ?_, fun hnothing contentKey e => ?_,
    fun hsomething contentKey e hagree => ?_⟩
  · have hform := wrapping_of_wrapped henc hread h
    exact ⟨hform.length, (hform.encryptedKey_eq_nil hlow).trans hsends.symm,
      unwrap_of_wrapping hundoes henc hread hprivate hm hlow hform⟩
  · obtain ⟨-, -, -, -, hsame, -⟩ := wrapping_of_wrap h
    exact hsame
  · exact wrap_of_sendsNothing (hsends.1 hnothing) contentKey enc e
  · constructor
    · rintro ⟨wrapped, h⟩
      have hwrap : sender.wrap contentKey enc e = (.ok wrapped, _) := Prod.ext h rfl
      obtain ⟨-, -, -, -, rfl, -⟩ := wrapping_of_wrap hwrap
      exact (wrapping_of_wrapped henc hread (.inr hwrap)).length
    · rintro rfl
      have hwraps : ¬ (method = .direct ∨ method = .agreement none) :=
        fun h => hsomething (hsends.2 h)
      obtain ⟨found, e', hfound⟩ :
          ∃ found e', sender.wrapMaterial m contentKey e = (.ok found, e') :=
        exists_wrapMaterial (Algorithm.managed_of_mem ha) hmethod hk hread hwraps hdvd hhigh hagree
      exact ⟨_, congrArg Prod.fst (wrap_of_wrapMaterial henc hread hfound)⟩

theorem suits_rsaOaep {key : RsaKey}
    (hsize : Algorithm.rsaOaep.isLegalSize (8 * key.width) = true) (id : Option String) :
    (SecretKey.make id (.pair (.rsa key)) {}).Suits .rsaOaep := ⟨rfl, rfl, hsize⟩

theorem bind_rsaOaep {key : RsaKey}
    (hsize : Algorithm.rsaOaep.isLegalSize (8 * key.width) = true) (limits : PasswordLimits)
    (id : Option String) :
    KeyWrapper.bind limits (.make id (.pair (.rsa key)) {}) .rsaOaep =
      .ok ⟨.make id (.pair (.rsa key)) {}, .rsaOaep, .rsaOaep .sha256, limits, {}⟩ :=
  KeyWrapper.bind_eq_ok.2 ⟨_, rfl, suits_rsaOaep hsize id, rfl⟩

/-- A key under an algorithm that sends a key along wraps 16 zero bytes, and gets them back. -/
def ReturnsZeros (k : SecretKey) (a : Algorithm) : Prop :=
  let enc := Algorithm.cipher "A128GCM" (.gcm 128)
  let e := Entropy.scrambled 1
  ∃ w wrapped e', KeyWrapper.bind (.make 1 1) k a = .ok w ∧
    w.wrap (Bytes.zeros 16) enc e = (.ok wrapped, e') ∧ wrapped.encryptedKey ≠ [] ∧
      w.unwrap wrapped.encryptedKey wrapped.parameters enc e' = (.ok (Bytes.zeros 16), e')

/-- A symmetric key, the key of the base point of a curve and an RSA key wrap what they get back. -/
theorem unwrap_wrapped_zeros :
    ReturnsZeros (.make none (.symmetric (Bytes.zeros 16)) {})
        (.wrapping "A128KW" 128 (.aesWrap 128)) ∧
      ReturnsZeros (.make none (.pair (.ec (.ofBase .p256))) {})
        (.agreement "ECDH-ES+A128KW" (some 128)) ∧
      ReturnsZeros (.make none (.pair (.rsa .mersenneKey)) {}) .rsaOaep := by
  have hreturns : ∀ (a : Algorithm) (m : KeyMaterial) (w : KeyWrapper),
      a ∈ Algorithm.keyManagement → ¬ a.SendsNothing →
      KeyWrapper.bind (.make 1 1) (.make none m {}) a = .ok w → m.isPrivate = true → m.Recovers →
      (∀ key, ecKey m = .ok key → key.Meets ∧ key.curve.Draws (Entropy.scrambled 1)) →
      ReturnsZeros (.make none m {}) a := by
    intro a m w ha hsends hbind hprivate hm hagree
    obtain ⟨hback, hsame, -, hexact⟩ :=
      unwrap_wrapped ha le_rfl hbind rfl hprivate hm
        (rfl : contentKeyLength (Algorithm.cipher "A128GCM" (.gcm 128)) = .ok 16)
        (by decide) (by decide) (by decide) w.party w.party
    obtain ⟨wrapped, hwrapped⟩ :=
      (hexact hsends (Bytes.zeros 16) _ hagree).2 (Bytes.length_zeros 16)
    have hwrap : w.wrap (Bytes.zeros 16) (Algorithm.cipher "A128GCM" (.gcm 128))
        (Entropy.scrambled 1) = (.ok wrapped, _) := Prod.ext hwrapped rfl
    have hzeros : wrapped.contentKey = Bytes.zeros 16 := hsame _ _ _ _ hwrap
    obtain ⟨-, hempty, hunwrap⟩ := hback wrapped _ _ (.inr (by rw [hzeros]; exact hwrap))
    rw [hzeros] at hunwrap
    exact ⟨w, wrapped, _, hbind, hwrap, fun hnil => hsends (hempty.1 hnil), hunwrap _⟩
  refine ⟨?_, ?_, ?_⟩
  · exact hreturns _ _ _ (by simp [Algorithm.keyManagement])
      (by simp [Algorithm.SendsNothing, Algorithm.wrapping]) rfl rfl
      (KeyMaterial.recovers_symmetric _) (fun key hkey => by cases hkey)
  · refine hreturns _ _ _ (by simp [Algorithm.keyManagement])
      (by simp [Algorithm.SendsNothing, Algorithm.agreement]) rfl rfl ⟨?_, ?_⟩ ?_
    · rintro key ⟨⟩
      exact EcKey.agrees_ofBase .p256
    · rintro key ⟨⟩
    · rintro key ⟨⟩
      exact ⟨EcKey.meets_ofBase .p256, 0, by decide, by decide +kernel⟩
  · refine hreturns _ _ _ (by simp [Algorithm.keyManagement, Algorithm.rsaOaep])
      (by simp [Algorithm.SendsNothing, Algorithm.rsaOaep]) (bind_rsaOaep ?_ _ _)
      RsaKey.isPrivate_mersenneKey ⟨?_, ?_⟩ ?_
    · rw [RsaKey.width_mersenneKey]
      rfl
    · rintro key ⟨⟩
    · rintro key ⟨⟩
      exact RsaKey.inverts_mersenneKey
    · rintro key ⟨⟩

end KeyWrapper

end TokenSeal
