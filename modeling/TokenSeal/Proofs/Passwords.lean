import TokenSeal.Proofs.SealedRoundTrip
import TokenSeal.Proofs.WrapRoundTrip

/-! Content keys wrapped under passwords. The number of iterations that a password is hashed with
travels with the key, and it is never more than the recipient's limit: limits are made so that what
one wraps another unwraps. Only no iterations at all are too few. -/

namespace TokenSeal

def Algorithm.passwordCodes : List String :=
  ["PBES2-HS256+A128KW", "PBES2-HS384+A192KW", "PBES2-HS512+A256KW"]

theorem Algorithm.method_of_passwordCode {a : Algorithm} (h : a ∈ builtin)
    (hfamily : a.family = .keyManagement) (hcode : a.code ∈ passwordCodes) :
    ∃ hash bits, a.method = .keyManagement (.password hash bits) := by
  have hall : ∀ a ∈ keyManagement, a.code ∈ passwordCodes →
      ∃ hash bits, a.method = .keyManagement (.password hash bits) := by
    simp [keyManagement, passwordCodes, direct, wrapping, agreement, password]
  exact hall a ((mem_of_family h).2 hfamily) hcode

theorem Algorithm.contentKeyLength_of_mem {enc : Algorithm} (h : enc ∈ contentCiphers) :
    ∃ n, KeyWrapper.contentKeyLength enc = .ok n ∧ 16 ≤ n := by
  simp only [contentCiphers, List.mem_cons, List.not_mem_nil, or_false] at h
  obtain rfl | rfl | rfl | rfl | rfl | rfl := h <;> exact ⟨_, rfl, by decide⟩

namespace KeyWrapper

section

variable {w w' : KeyWrapper} {enc : Algorithm} {n : Nat} {m : KeyMaterial} {wrapped : WrappedKey}
  {hash : HashId} {bits : Nat} {e e' : Entropy}

theorem symmetricKey_eq_ok {bytes : Bytes} :
    symmetricKey m = .ok bytes ↔ m = .symmetric bytes := by
  cases m <;> simp [symmetricKey, KeyMaterial.effective]

theorem Wrapping.symmetric_of_password (h : Wrapping w enc n m wrapped)
    (hmethod : w.method = .password hash bits) :
    (∃ password, m = .symmetric password) ∧
      ∃ salt, wrapped.parameters = .password salt w.limits.iterations := by
  cases h with
  | password _ hkey _ _ => exact ⟨⟨_, symmetricKey_eq_ok.1 hkey⟩, _, rfl⟩
  | _ => simp_all

/-- A key that was wrapped with no iterations is not even tried. -/
theorem Wrapping.formFault?_of_zero (h : Wrapping w enc n m wrapped)
    (hmethod : w.method = .password hash bits) (hzero : w.limits.iterations = 0)
    (limits : PasswordLimits) :
    formFault? limits w.method wrapped.parameters =
      some (.format (.iterationCount limits.maxIterations)) := by
  obtain ⟨-, salt, hparameters⟩ := h.symmetric_of_password hmethod
  simp [formFault?, hmethod, hparameters, hzero]

/-- One wrapper unwraps what the other one wrapped. -/
theorem unwrap_of_password (hkey : w'.key = w.key) (halgorithm : w'.algorithm = w.algorithm)
    (hsame : w'.method = w.method) (hmethod : w.method = .password hash bits)
    (hmost : w.limits.iterations ≤ w'.limits.maxIterations)
    (henc : contentKeyLength enc = .ok n) (hread : w.key.read = .ok m) (hlen : 16 ≤ n)
    (h : Wrapping w enc n m wrapped) (entropy : Entropy) :
    w'.unwrap wrapped.encryptedKey wrapped.parameters enc entropy =
      (if 1 ≤ w.limits.iterations then .ok wrapped.contentKey
        else .error (.format (.iterationCount w'.limits.maxIterations)), entropy) := by
  obtain ⟨⟨password, rfl⟩, -⟩ := h.symmetric_of_password hmethod
  by_cases hpos : 1 ≤ w.limits.iterations
  · rw [if_pos hpos]
    exact unwrap_of_wrapping ⟨hkey, halgorithm, hsame, fun _ _ _ => ⟨hpos, hmost⟩⟩ henc hread rfl
      (KeyMaterial.recovers_symmetric password) hlen h entropy
  · have hform := h.formFault?_of_zero hmethod (by omega) w'.limits
    rw [if_neg hpos]
    rw [← hsame] at hform hmethod
    exact unwrap_of_formFault henc (by rw [hkey, hread]) (by simp [hmethod]) hform _ entropy

end

end KeyWrapper

namespace Recipient

section

variable {i : Issuer} {text : Bytes} {c : EncryptingCredentials} {cty : Option String}
  {extra : Header} {m : SealedMaking} {token : String}

/-- A token that cannot be unwrapped for the form of what is in it is refused for that, even with
the key that it was made for. -/
theorem decode_of_formFault {cause : Fault} (h : i.Makes text c cty extra m)
    (hparts : splitDots token =
      [m.parts.header, m.parts.encryptedKey, m.parts.iv, m.parts.ciphertext, m.parts.tag])
    (hlen : token.utf8ByteSize ≤ i.options.maxTokenLength)
    (hknown : i.known = .ok Algorithm.builtin) (hcount : i.options.iterations < 2 ^ 32)
    (hextra : extra.IsPlain) (hreserved : ∀ name ∈ Issuer.reservedNames, extra.get? name = none)
    (hcause : cause.kind = .format) {e : Entropy}
    (hunwrap : (m.wrapper.withParty {}).unwrap m.wrapped.encryptedKey m.wrapped.parameters m.enc e =
      (.error cause, e)) :
    (decode ⟨i.options, i.known, [m.wrapper.key]⟩ token e).1 = .error (.fault cause) := by
  obtain ⟨hfind, -, hmethod, hsuits, -⟩ := Issuer.wrapper_eq_ok h.wrapper
  rw [hknown] at hfind
  obtain ⟨hmem, hfamily⟩ := Known.mem_builtin hfind
  have hkid : m.header.get? "kid" = m.wrapper.key.id.map .string :=
    h.get?_header (by simp) (hreserved _)
  have hkeyed := Algorithm.keyType_of_keyManagement hmem hfamily
  have hkeys : keysFor ⟨i.options, i.known, [m.wrapper.key]⟩ m.wrapper.algorithm
      m.wrapper.algorithm.code m.header = .ok [m.wrapper.key] := by
    have hnil : contenders m.wrapper.algorithm m.header [] = [] := by simp [contenders, hkeyed]
    have hone : contenders m.wrapper.algorithm m.header [m.wrapper.key] = [m.wrapper.key] := by
      simpa [hnil] using contenders_append hsuits hkeyed hkid [] []
    rw [keysFor_eq, hone]
    rfl
  have hread := readSealed_eq_ok.2 (h.readsSealed hcount hextra hreserved [m.wrapper.key])
  have hbind : KeyWrapper.bind m.wrapper.limits m.wrapper.key m.wrapper.algorithm =
      .ok (m.wrapper.withParty {}) :=
    KeyWrapper.bind_eq_ok.2 ⟨m.wrapper.method, hmethod, hsuits, rfl⟩
  have hopening : opening m.reading.parcel none false [m.wrapper.key] e =
      (.error (.fault cause), e) := opening_malformed hbind hunwrap hcause
  have hsettle : settleSealed ⟨i.options, i.known, [m.wrapper.key]⟩ m.reading e =
      (.error (.fault cause), e) := by
    rw [settleSealed]
    exact (congrArg (fun keys => (Draw.ofExcept keys >>= _) e) hkeys).trans
      ((Draw.ofExcept_ok_bind _ _ e).trans (Draw.bind_error hopening))
  rw [decode_sealed hparts hlen, hread, Draw.bind_error]
  rw [Draw.ofExcept_ok_bind, hsettle]

/-- What was encrypted under a password is read back with it, unless its iterations are none. -/
theorem decode_of_passwordMakes {hash : HashId} {bits : Nat} (h : i.Makes text c none extra m)
    (hmethod : m.wrapper.method = .password hash bits)
    (hparts : splitDots token =
      [m.parts.header, m.parts.encryptedKey, m.parts.iv, m.parts.ciphertext, m.parts.tag])
    (hlen : token.utf8ByteSize ≤ i.options.maxTokenLength)
    (hknown : i.known = .ok Algorithm.builtin) (hcount : i.options.iterations < 2 ^ 32)
    (hextra : extra.IsPlain) (hreserved : ∀ name ∈ Issuer.reservedNames, extra.get? name = none)
    (hzip : m.zip.isSome →
      Deflate.Restores i.deflate ∧ text.length ≤ i.options.maxDecompressedSize) (e : Entropy) :
    (decode ⟨i.options, i.known, [m.wrapper.key]⟩ token e).1 =
      if 1 ≤ i.options.iterations then .ok ⟨m.header, text, m.wrapper.key.id, none⟩
      else .error (.fault (.format (.iterationCount i.options.passwordLimits.maxIterations))) := by
  obtain ⟨-, -, -, -, hlimits, -⟩ := Issuer.wrapper_eq_ok h.wrapper
  obtain ⟨e₀, e₁, hwraps⟩ := h.wraps
  obtain ⟨n, k, hlength, hread, hwrapping⟩ := KeyWrapper.wrapping_of_wrapNew hwraps
  obtain ⟨⟨password, rfl⟩, -⟩ := hwrapping.symmetric_of_password hmethod
  by_cases hpos : 1 ≤ i.options.iterations
  · have hkey : ∀ k, m.wrapper.key.material = some k → k.isPrivate = true ∧ k.Recovers := by
      intro k hk
      obtain rfl : .symmetric password = k :=
        Option.some.inj ((SecretKey.read_eq_ok.1 hread).symm.trans hk)
      exact ⟨rfl, KeyMaterial.recovers_symmetric password⟩
    have hopens : ¬ Opens ⟨i.options, i.known, []⟩ token e := hknown ▸ not_opens_nil
    obtain ⟨e', hdecode⟩ := decode_of_makes h hparts hlen hknown ⟨hpos, hcount⟩ hextra hreserved
      hzip hkey hopens []
    have hplain : m.header.isNested = false := isNested_of_makes h hreserved
    rw [List.nil_append, unnest_of_plain _ hplain] at hdecode
    rw [hdecode, if_pos hpos]
    rfl
  · have hzero : m.wrapper.limits.iterations = 0 := by
      rw [hlimits]
      exact Nat.eq_zero_of_not_pos hpos
    have hform : KeyWrapper.formFault? (m.wrapper.withParty {}).limits (m.wrapper.withParty {}).method
        m.wrapped.parameters = some (.format (.iterationCount m.wrapper.limits.maxIterations)) :=
      hwrapping.formFault?_of_zero hmethod hzero _
    have hunwrap := KeyWrapper.unwrap_of_formFault hlength hread
      (fun bits hagreed => by simp [hmethod] at hagreed) hform
      m.wrapped.encryptedKey e
    rw [decode_of_formFault h hparts hlen hknown hcount hextra hreserved rfl hunwrap, if_neg hpos,
      hlimits]

end

end Recipient

/-! ### Within the limits -/

/-- Wherever the limit on reading was set, tokens encrypted under a password are read back by
whoever has the password and the same options, and keys wrapped under it are unwrapped by another
wrapper that was made with the same limits, as long as there is an iteration to hash with. Without
one neither is, and the answer is that the number of iterations is out of range. -/
theorem PasswordLimits.accepts_own {iterations maxIterations : Nat} (hcount : iterations < 2 ^ 32) :
    (∀ (i : Issuer) payload (c : EncryptingCredentials) (extra : Header) token e e',
      i.options.iterations = iterations → i.options.maxIterations = maxIterations →
      i.known = .ok Algorithm.builtin → c.algorithm ∈ Algorithm.passwordCodes →
      i.encode payload ⟨none, some c⟩ extra e = (.ok token, e') →
      token.utf8ByteSize ≤ i.options.maxTokenLength →
      extra.IsPlain → (∀ name ∈ Issuer.reservedNames, extra.get? name = none) →
      (∀ z, i.effectiveCompressor c.compression = .ok (some z) →
        Deflate.Restores i.deflate ∧ payload.length ≤ i.options.maxDecompressedSize) →
      ∃ k header, c.source.Offers i.rings k ∧
        ∀ entropy, (Recipient.decode ⟨i.options, i.known, [k]⟩ token entropy).1 =
          if 1 ≤ iterations then .ok ⟨header, payload, k.id, none⟩
          else .error (.fault (.format (.iterationCount (max maxIterations iterations))))) ∧
    ∀ (k : SecretKey) (a enc : Algorithm) w party party', a ∈ Algorithm.builtin →
      a.code ∈ Algorithm.passwordCodes → enc ∈ Algorithm.contentCiphers →
      KeyWrapper.bind (.make iterations maxIterations) k a = .ok w →
      ∀ wrapped e e', ((w.withParty party).wrapNew enc e = (.ok wrapped, e') ∨
        (w.withParty party).wrap wrapped.contentKey enc e = (.ok wrapped, e')) →
        ∀ entropy, (w.withParty party').unwrap wrapped.encryptedKey wrapped.parameters enc entropy =
          (if 1 ≤ iterations then .ok wrapped.contentKey
            else .error (.format (.iterationCount (max maxIterations iterations))), entropy) := by
  constructor
  · rintro i payload c extra token e e' rfl rfl hknown hcode htoken hlen hextra hreserved hexpands
    obtain ⟨m, hm, hparts⟩ := Issuer.encrypt_eq_ok htoken
    obtain ⟨hfind, hsame, hmethod, -⟩ := Issuer.wrapper_eq_ok hm.wrapper
    rw [hknown] at hfind
    obtain ⟨hmem, hfamily⟩ := Known.mem_builtin hfind
    obtain ⟨hash, bits, hpassword⟩ :=
      Algorithm.method_of_passwordCode hmem hfamily (hsame ▸ hcode)
    have hmethod' : m.wrapper.method = .password hash bits := by
      simpa using hmethod.symm.trans hpassword
    have hzip : m.zip.isSome →
        Deflate.Restores i.deflate ∧ payload.length ≤ i.options.maxDecompressedSize := by
      intro hsome
      obtain ⟨z, hz⟩ := Option.isSome_iff_exists.1 hsome
      exact hexpands z (by rw [hm.zip, hz])
    exact ⟨m.wrapper.key, m.header, Recipient.offers_of_makes hm hknown,
      Recipient.decode_of_passwordMakes hm hmethod' hparts hlen hknown hcount hextra hreserved
        hzip⟩
  · intro k a enc w party party' hmem hcode henc hbind wrapped e e' hwrap entropy
    obtain ⟨method, hmethod, hsuits, rfl⟩ := KeyWrapper.bind_eq_ok.1 hbind
    have hfamily : a.family = .keyManagement := by simp [Algorithm.family, hmethod, Method.family]
    obtain ⟨hash, bits, hpassword⟩ := Algorithm.method_of_passwordCode hmem hfamily hcode
    obtain rfl : method = .password hash bits := by simpa using hmethod.symm.trans hpassword
    obtain ⟨n, hlength, hlow⟩ := Algorithm.contentKeyLength_of_mem henc
    obtain ⟨material, -, hread⟩ := SecretKey.read_of_live hsuits.1
    exact KeyWrapper.unwrap_of_password rfl rfl rfl rfl (Nat.le_max_right _ _) hlength hread hlow
      (KeyWrapper.wrapping_of_wrapped hlength hread hwrap) entropy

/-! ### A password of zeros -/

/-- An issuer that is to read passwords with ten iterations at most. -/
def passwordIssuer (iterations maxTokenLength : Nat) : Issuer :=
  ⟨{ iterations := iterations, maxIterations := 10, maxTokenLength := maxTokenLength },
    .ok Algorithm.builtin, fun _ => .error (.disposed .secretKey), 0, Deflate.deflate⟩

def passwordKey : SecretKey := .make (some "p") (.symmetric (Bytes.zeros 16)) {}

def passwordCredentials : EncryptingCredentials :=
  ⟨"PBES2-HS256+A128KW", "A128GCM", none, .key passwordKey, {}⟩

def passwordWrapper (iterations : Nat) : KeyWrapper :=
  ⟨passwordKey, .password "PBES2-HS256+A128KW" .sha256 128, .password .sha256 128,
    .make iterations 10, {}⟩

theorem exists_wrapNew_password (iterations : Nat) (e : Entropy) :
    ∃ wrapped e', (passwordWrapper iterations).wrapNew (.cipher "A128GCM" (.gcm 128)) e =
      (.ok wrapped, e') ∧ wrapped.contentKey.length = 16 := by
  have hkey : (e.take 16).length = 16 := by simp [Entropy.take]
  have hsuits : passwordKey.Suits (.password "PBES2-HS256+A128KW" .sha256 128) :=
    ⟨rfl, rfl, by decide⟩
  obtain ⟨found, e', hfound⟩ : ∃ found e', (passwordWrapper iterations).wrapMaterial
      (.symmetric (Bytes.zeros 16)) (e.take 16) (e.advance 16) = (.ok found, e') :=
    KeyWrapper.exists_wrapMaterial (Algorithm.Managed.password _ _ (l := 16) rfl) rfl hsuits rfl
      (by simp) (by rw [hkey]; decide) (by rw [hkey]; decide) (fun _ h => by cases h)
  exact ⟨⟨e.take 16, found.1, found.2⟩, e',
    KeyWrapper.wrapNew_of_wrapMaterial (by simp [passwordWrapper]) rfl rfl hfound, hkey⟩

theorem exists_sealContent_gcm {key : Bytes} (hkey : key.length = 16) (text : Bytes)
    (header : String) (e : Entropy) : ∃ content e',
      Issuer.sealContent (.cipher "A128GCM" (.gcm 128)) key text header e = (.ok content, e') := by
  let sealer : Sealer := ⟨Issuer.contentKey key, .cipher "A128GCM" (.gcm 128), .gcm 128⟩
  have hbits : (Issuer.contentKey key).profile.bits = 128 := congrArg (8 * ·) hkey
  have hbind : Sealer.bind (Issuer.contentKey key) (.cipher "A128GCM" (.gcm 128)) = .ok sealer :=
    Sealer.bind_eq_ok.2 ⟨.gcm 128, rfl, ⟨rfl, rfl, by rw [hbits]; decide⟩, rfl⟩
  have hiv : (e.take 12).length = sealer.cipher.ivLength := by
    simp [Entropy.take, sealer, ContentCipher.ivLength]
  have hread : sealer.key.read = .ok (.symmetric key) := rfl
  have haes : Aes.isKeyLength key.length = true := by rw [hkey]; rfl
  obtain ⟨content, hcontent⟩ : ∃ content,
      sealer.sealWith (e.take 12) text (Bytes.ofText header) = .ok content := by
    rw [Sealer.sealWith, if_neg (not_not.2 hiv), hread]
    simp [sealer, KeyMaterial.effective, Sealer.sealGcm, haes]
  refine ⟨content, e.advance 12, ?_⟩
  rw [Issuer.sealContent, hbind, Draw.ofExcept_ok_bind, Sealer.encrypt]
  exact (Draw.bind_ok (Draw.bytes_apply 12 e)).trans (by rw [hcontent]; rfl)

theorem exists_encode_password (iterations : Nat) (e : Entropy) :
    ∃ token e', ∀ maxTokenLength, (passwordIssuer iterations maxTokenLength).encode
      (Bytes.ofText "hi") ⟨none, some passwordCredentials⟩ Header.empty e = (.ok token, e') := by
  obtain ⟨wrapped, e₁, hwrap, hkey⟩ := exists_wrapNew_password iterations e
  let header := Issuer.finishHeader {} (Issuer.sealedMembers (passwordWrapper iterations)
    (.cipher "A128GCM" (.gcm 128)) none none wrapped.parameters) Header.empty
  obtain ⟨content, e₂, hcontent⟩ :=
    exists_sealContent_gcm hkey (Bytes.ofText "hi") header.toSegment e₁
  let m : SealedMaking :=
    ⟨passwordWrapper iterations, .cipher "A128GCM" (.gcm 128), none, wrapped, header, content⟩
  refine ⟨joinDots [m.parts.header, m.parts.encryptedKey, m.parts.iv, m.parts.ciphertext,
    m.parts.tag], e₂, fun maxTokenLength => ?_⟩
  exact (Issuer.encrypt_of_sealContent (m := m) (i := passwordIssuer iterations maxTokenLength)
    rfl rfl rfl hwrap rfl hcontent).2

/-- Twenty iterations are written, where ten were set as the most to read, and read back. -/
theorem PasswordLimits.accepts_own_zeros :
    let e := Entropy.scrambled 0
    ∃ token e' length, let i := passwordIssuer 20 length
      i.encode (Bytes.ofText "hi") ⟨none, some passwordCredentials⟩ Header.empty e =
        (.ok token, e') ∧ token.utf8ByteSize ≤ i.options.maxTokenLength ∧
      ∃ t, (Recipient.decode ⟨i.options, i.known, [passwordKey]⟩ token e).1 = .ok t ∧
        t.payload = Bytes.ofText "hi" := by
  intro e
  obtain ⟨token, e', hencode⟩ := exists_encode_password 20 e
  let i := passwordIssuer 20 token.utf8ByteSize
  have htwenty : 20 < 2 ^ 32 := by decide
  obtain ⟨k, header, hoffers, hdecode⟩ := (PasswordLimits.accepts_own htwenty).1 i _ _ _ _ _ _ rfl
    rfl rfl (by decide) (hencode token.utf8ByteSize) le_rfl Header.isPlain_empty (fun _ _ => rfl)
    (fun z hz => nomatch hz)
  obtain rfl : k = passwordKey := hoffers
  exact ⟨token, e', token.utf8ByteSize, hencode _, le_rfl, _, hdecode e, rfl⟩

/-- No iterations are written, and whoever wrote them does not read them. -/
theorem decode_no_iterations :
    let e := Entropy.scrambled 0
    ∃ token e' length, let i := passwordIssuer 0 length
      i.encode (Bytes.ofText "hi") ⟨none, some passwordCredentials⟩ Header.empty e =
        (.ok token, e') ∧ token.utf8ByteSize ≤ i.options.maxTokenLength ∧
      (Recipient.decode ⟨i.options, i.known, [passwordKey]⟩ token e).1 =
        .error (.fault (.format (.iterationCount 10))) := by
  intro e
  obtain ⟨token, e', hencode⟩ := exists_encode_password 0 e
  let i := passwordIssuer 0 token.utf8ByteSize
  obtain ⟨m, hm, hparts⟩ := Issuer.encrypt_eq_ok (hencode token.utf8ByteSize)
  have hwrapper : m.wrapper = passwordWrapper 0 := Except.ok.inj (hm.wrapper.symm.trans rfl)
  have hzip : m.zip = none := Except.ok.inj (hm.zip.symm.trans rfl)
  have hrefused := Recipient.decode_of_passwordMakes hm (by rw [hwrapper]; rfl) hparts
    (le_refl token.utf8ByteSize) rfl (show 0 < 2 ^ 32 by decide) Header.isPlain_empty
    (fun _ _ => rfl) (by simp [hzip]) e
  rw [hwrapper] at hrefused
  exact ⟨token, e', token.utf8ByteSize, hencode _, le_rfl, hrefused⟩

end TokenSeal
