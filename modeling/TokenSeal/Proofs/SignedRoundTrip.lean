import TokenSeal.Proofs.Hash
import TokenSeal.Proofs.Header
import TokenSeal.Proofs.SignedAcceptance

/-! Signed tokens are accepted by every recipient that holds the key they were signed with. -/

namespace TokenSeal

/-! ### Signing and verifying under one key -/

/-- Signatures of RSA and elliptic curve keys verify under the keys that made them. There is
nothing to ask of other material. -/
structure KeyMaterial.VerifiesOwn (m : KeyMaterial) : Prop where
  digest : ∀ k s h data signature, m.effective = .pair (.rsa k) → k.secret = some s →
    Rsa.signDigest k s h data = .ok signature → Rsa.verifyDigest k h data signature = true
  salted : ∀ k s h data signature e e', m.effective = .pair (.rsa k) → k.secret = some s →
    Rsa.signSalted k s h data e = (.ok signature, e') →
      Rsa.verifySalted k h data signature = true
  curve : ∀ k d data signature, m.effective = .pair (.ec k) → k.secret = some d →
    Ecdsa.sign? k.curve d data = some signature →
      Ecdsa.verify k.curve k.point data signature = true

theorem KeyMaterial.verifiesOwn_symmetric (bytes : Bytes) : (symmetric bytes).VerifiesOwn := by
  constructor <;> intros <;> simp_all [effective]

theorem KeyMaterial.verifiesOwn_none : KeyMaterial.none.VerifiesOwn := by
  constructor <;> intros <;> simp_all [effective]

namespace Signer

theorem rsaSecret_eq_ok {m : KeyMaterial} {k : RsaKey} {s : RsaSecret}
    (h : rsaSecret m = .ok (k, s)) : m.effective = .pair (.rsa k) ∧ k.secret = some s := by
  unfold rsaSecret at h
  split at h
  · next k' hk =>
    split at h
    · next s' hs =>
      cases h
      exact ⟨hk, hs⟩
    · cases h
  · cases h

theorem ecSignature_eq_ok {k : EcKey} {data signature : Bytes}
    (h : ecSignature k data = .ok signature) :
    ∃ d, k.secret = some d ∧ Ecdsa.sign? k.curve d data = some signature := by
  unfold ecSignature at h
  split at h
  · cases h
  · next d hd =>
    split at h
    · next signature' hsign =>
      cases h
      exact ⟨d, hd, hsign⟩
    · cases h

theorem matchesMaterial_sign {s : Signer} {m : KeyMaterial} {data signature : Bytes}
    {e e' : Entropy} (hm : s.key.material = some m) (hown : m.VerifiesOwn)
    (h : s.sign data e = (.ok signature, e')) :
    matchesMaterial s.method m data signature = true := by
  rw [sign, Draw.bind_ok (Draw.ofExcept_eq_ok.2 ⟨SecretKey.read_eq_ok.2 hm, rfl⟩)] at h
  cases hmethod : s.method with
  | unsecured =>
    rw [hmethod] at h
    cases h
    rfl
  | hmac hash =>
    rw [hmethod] at h
    cases heff : m.effective with
    | symmetric bytes =>
      simp only [heff] at h
      cases h
      simp [matchesMaterial, heff]
    | _ =>
      simp only [heff] at h
      cases h
  | rsaDigest hash =>
    rw [hmethod] at h
    obtain ⟨⟨k, secret⟩, hsecret, h⟩ := Draw.ofExcept_bind_eq_ok.1 h
    obtain ⟨heff, hs⟩ := rsaSecret_eq_ok hsecret
    obtain ⟨h, -⟩ := Draw.ofExcept_eq_ok.1 h
    simpa [matchesMaterial, heff] using hown.digest k secret hash data signature heff hs
      (mapError_eq_ok.1 h)
  | rsaSalted hash =>
    rw [hmethod] at h
    obtain ⟨⟨k, secret⟩, hsecret, h⟩ := Draw.ofExcept_bind_eq_ok.1 h
    obtain ⟨heff, hs⟩ := rsaSecret_eq_ok hsecret
    simpa [matchesMaterial, heff] using hown.salted k secret hash data signature e e' heff hs
      (Draw.mapError_eq_ok.1 h)
  | ecdsa curve =>
    rw [hmethod] at h
    cases heff : m.effective with
    | pair p =>
      cases p with
      | ec k =>
        simp only [heff] at h
        obtain ⟨h, -⟩ := Draw.ofExcept_eq_ok.1 h
        obtain ⟨d, hs, hsign⟩ := ecSignature_eq_ok h
        simpa [matchesMaterial, heff] using hown.curve k d data signature heff hs hsign
      | rsa k =>
        simp only [heff] at h
        cases h
    | _ =>
      simp only [heff] at h
      cases h

end Signer

/-! ### Making a signed token -/

namespace Issuer

theorem signer_eq_ok {i : Issuer} {c : SigningCredentials} {s : Signer}
    (h : i.signer c = .ok s) :
    i.known.find .signature c.algorithm = .ok s.algorithm ∧ s.algorithm.code = c.algorithm ∧
      Signer.bind s.key s.algorithm = .ok s ∧
      (s.algorithm.keyType = .none → s.key = SecretKey.empty) ∧
        (s.algorithm.keyType ≠ .none → c.source.Offers i.rings s.key) := by
  obtain ⟨a, k, ha, hs, hempty, hoffers⟩ := KeySource.bind_eq_ok h
  obtain ⟨m, hm, hk, rfl⟩ := Signer.bind_eq_ok.1 hs
  exact ⟨ha, (Known.find_eq_ok ha).2, hs, hempty, hoffers⟩

theorem sign_eq_ok {i : Issuer} {payload : Bytes} {c : SigningCredentials} {extra : Header}
    {token : String} {e e' : Entropy} (h : i.sign payload c extra e = (.ok token, e')) :
    ∃ s signature, i.signer c = .ok s ∧
      s.sign (Bytes.ofText ((i.signedHeader s extra).toSegment ++ "." ++ segment payload)) e =
        (.ok signature, e') ∧
      token = (i.signedHeader s extra).toSegment ++ "." ++ segment payload ++ "." ++
        segment signature := by
  obtain ⟨s, hs, h⟩ := Draw.ofExcept_bind_eq_ok.1 h
  obtain ⟨signature, e₂, hsign, h⟩ := Draw.bind_eq_ok.1 h
  cases h
  exact ⟨s, signature, mapError_eq_ok.1 hs, Draw.mapError_eq_ok.1 hsign, rfl⟩

theorem splitDots_signed (h : Header) (payload signature : Bytes) :
    splitDots (h.toSegment ++ "." ++ segment payload ++ "." ++ segment signature) =
      [h.toSegment, segment payload, segment signature] := by
  rw [splitDots_append, splitDots_append, Header.splitDots_toSegment, splitDots_segment,
    splitDots_segment]
  rfl

theorem get?_signedHeader_alg (i : Issuer) (s : Signer) (extra : Header) :
    (i.signedHeader s extra).get? "alg" = some (.string s.algorithm.code) := by
  simp [signedHeader, Header.get?_finishHeader, Header.get?_insertText, Header.get?_insert]

theorem get?_signedHeader_kid (i : Issuer) (s : Signer) {extra : Header}
    (hkid : extra.get? "kid" = none) :
    (i.signedHeader s extra).get? "kid" = s.key.id.map .string := by
  simp [signedHeader, Header.get?_finishHeader, Header.get?_insertText, Header.get?_insert,
    Header.get?_empty, hkid]

theorem get?_signedHeader_crit (i : Issuer) (s : Signer) {extra : Header}
    (hcrit : extra.get? "crit" = none) : (i.signedHeader s extra).get? "crit" = none := by
  simp [signedHeader, Header.get?_finishHeader, Header.get?_insertText, Header.get?_insert,
    Header.get?_empty, hcrit]

theorem isPlain_signedHeader (i : Issuer) (s : Signer) {extra : Header} (he : extra.IsPlain) :
    (i.signedHeader s extra).IsPlain :=
  .finishHeader i.options ((Header.isPlain_empty.insertString _ _).insertText _ _) he

end Issuer

theorem Options.checkCritical_of_none {o : Options} {h : Header} (hcrit : h.get? "crit" = none) :
    o.checkCritical h = .ok () := by
  simp [checkCritical, Header.critical, hcrit]

/-! ### Reading it back -/

namespace Recipient

theorem mem_contenders {a : Algorithm} {h : Header} {keys : List SecretKey} {k : SecretKey}
    (hsuits : k.Suits a) (hempty : a.keyType = .none → k = SecretKey.empty)
    (hkeys : a.keyType ≠ .none → k ∈ keys) (hkid : h.get? "kid" = k.id.map .string) :
    k ∈ contenders a h keys := by
  by_cases ha : a.keyType = .none
  · simp [contenders, ha, hempty ha]
  · simp only [contenders, ha, if_false, List.mem_filter, Bool.and_eq_true, Bool.not_eq_true',
      decide_eq_true_eq]
    refine ⟨hkeys ha, ⟨hsuits.1, hsuits.2.1⟩, ?_⟩
    cases hid : k.id <;> simp [hkid, hid]

theorem id_of_mem_contenders {a : Algorithm} {h : Header} {keys : List SecretKey} {k : SecretKey}
    {id : String} (hk : k ∈ contenders a h keys) (ha : a.keyType ≠ .none)
    (hkid : h.get? "kid" = some (.string id)) : k.id = some id := by
  simp only [contenders, ha, if_false, List.mem_filter, Bool.and_eq_true, hkid,
    decide_eq_true_eq] at hk
  exact hk.2.2

section Sign

variable {i : Issuer} {r : Recipient} {c : SigningCredentials} {s : Signer}
  {payload signature : Bytes} {extra : Header} {e e' : Entropy}

theorem reads_of_sign (payload signature : Bytes) (hknown : r.known = i.known)
    (hs : i.signer c = .ok s) (hextra : extra.IsPlain) (hcrit : extra.get? "crit" = none)
    (hsecured : c.algorithm = "none" → r.options.allowUnsecured = true) :
    r.Reads
      ⟨(i.signedHeader s extra).toSegment, Issuer.segment payload, Issuer.segment signature⟩
      ⟨i.signedHeader s extra, s.algorithm, payload, signature⟩ := by
  obtain ⟨hfind, hcode, -⟩ := Issuer.signer_eq_ok hs
  exact
    { header := Header.ofSegment_eq_ok.1
        (Header.ofSegment_toSegment (Issuer.isPlain_signedHeader i s hextra))
      critical := Options.checkCritical_of_none (Issuer.get?_signedHeader_crit i s hcrit)
      alg := Issuer.get?_signedHeader_alg i s extra
      known := by rw [hknown, hcode]; exact hfind
      secured := fun hnone => hsecured (hcode.symm.trans hnone)
      payload := Base64Url.decode_encode payload
      signature := Base64Url.decode_encode signature }

theorem verifies_of_sign (hs : i.signer c = .ok s)
    (hown : ∀ m, s.key.material = some m → m.VerifiesOwn) {data : Bytes}
    (hsign : s.sign data e = (.ok signature, e')) :
    verifies s.algorithm data signature s.key = true := by
  obtain ⟨-, -, hbind, -⟩ := Issuer.signer_eq_ok hs
  obtain ⟨m, hm, hsuits, heq⟩ := Signer.bind_eq_ok.1 hbind
  obtain ⟨material, hmat, -⟩ := SecretKey.read_of_live hsuits.1
  have hmethod : s.method = m := by rw [heq]
  have hmatch := Signer.matchesMaterial_sign hmat (hown material hmat) hsign
  rw [hmethod] at hmatch
  simp only [verifies, hsuits.2.2, hm, hmat, Bool.true_and]
  exact hmatch

/-- What a signer wrote is read back by whoever has its key, for any other keys around it. -/
theorem settled_of_sign (hknown : r.known = i.known) (hs : i.signer c = .ok s)
    (hsign : s.sign (Bytes.ofText ((i.signedHeader s extra).toSegment ++ "." ++
      Issuer.segment payload)) e = (.ok signature, e'))
    (hextra : extra.IsPlain) (hkid : extra.get? "kid" = none) (hcrit : extra.get? "crit" = none)
    (hsecured : c.algorithm = "none" → r.options.allowUnsecured = true)
    (hown : ∀ m, s.key.material = some m → m.VerifiesOwn)
    (hkeys : s.algorithm.keyType ≠ .none → s.key ∈ r.keys) :
    ∃ t, (let p : SignedParts :=
          ⟨(i.signedHeader s extra).toSegment, Issuer.segment payload, Issuer.segment signature⟩
        r.readSigned p >>= r.settleSigned p) = .ok t ∧
      t.header = i.signedHeader s extra ∧ t.payload = payload ∧ t.outerHeader = none ∧
      (∀ id, s.key.id = some id → t.keyId = some id) ∧
      (s.algorithm.keyType = .none → t.keyId = none) := by
  obtain ⟨-, -, hbind, hempty, -⟩ := Issuer.signer_eq_ok hs
  obtain ⟨-, -, hsuits, -⟩ := Signer.bind_eq_ok.1 hbind
  have hreads := reads_of_sign payload signature hknown hs hextra hcrit hsecured
  have hheader := Issuer.get?_signedHeader_kid i s hkid
  have hmem : s.key ∈ contenders s.algorithm (i.signedHeader s extra) r.keys :=
    mem_contenders hsuits hempty hkeys hheader
  have hverifies := verifies_of_sign hs hown hsign
  obtain ⟨k, hk⟩ := Option.isSome_iff_exists.1 (List.find?_isSome.2 ⟨s.key, hmem, hverifies⟩)
  have hkmem := List.mem_of_find?_eq_some hk
  refine ⟨⟨i.signedHeader s extra, payload, k.id, none⟩,
    settled_eq_ok.2 ⟨_, hreads, k, hk, rfl⟩, rfl, rfl, rfl, fun id hid => ?_, fun ha => ?_⟩
  · by_cases ha : s.algorithm.keyType = .none
    · simp [hempty ha, SecretKey.empty, SecretKey.make] at hid
    · exact id_of_mem_contenders hkmem ha (by rw [hheader, hid]; rfl)
  · simp only [contenders, ha, if_true, List.mem_singleton] at hkmem
    rw [hkmem]
    rfl

end Sign

/-! ### A greeting -/

/-- An issuer that knows the standard algorithms and has no collections. -/
def plainIssuer : Issuer :=
  ⟨{ allowUnsecured := true }, .ok Algorithm.builtin, fun _ => .error (.disposed .secretKey), 0,
    Deflate.deflate⟩

/-- A symmetric key of 32 zero bytes. -/
def zeroKey (id : String) : SecretKey := .make (some id) (.symmetric (Bytes.zeros 32)) {}

def greetingSigner : Signer := ⟨zeroKey "a", .hmac "HS256" .sha256, .hmac .sha256, 32⟩

def greetingHeader : Header := plainIssuer.signedHeader greetingSigner Header.empty

def greetingInput : String := greetingHeader.toSegment ++ "." ++ Issuer.segment (Bytes.ofText "hi")

def greetingTag : Bytes := hmac .sha256 (Bytes.zeros 32) (Bytes.ofText greetingInput)

theorem signer_greeting :
    plainIssuer.signer ⟨"HS256", .key (zeroKey "a")⟩ = .ok greetingSigner := rfl

theorem encode_greeting (e : Entropy) :
    plainIssuer.encode (Bytes.ofText "hi") ⟨some ⟨"HS256", .key (zeroKey "a")⟩, none⟩
      Header.empty e = (.ok (greetingInput ++ "." ++ Issuer.segment greetingTag), e) := rfl

theorem utf8ByteSize_greeting :
    (greetingInput ++ "." ++ Issuer.segment greetingTag).utf8ByteSize ≤ 1000 := by
  have hheader : greetingHeader.render = "\x7b\"alg\":\"HS256\",\"kid\":\"a\"\x7d" := by
    cbv
  simp only [greetingInput, greetingTag, String.utf8ByteSize_append, Issuer.segment,
    Header.toSegment, hheader, Base64Url.utf8ByteSize_encode, length_hmac]
  decide

theorem length_greeting :
    (greetingInput ++ "." ++ Issuer.segment greetingTag).utf8ByteSize ≤
      plainIssuer.options.maxTokenLength :=
  Nat.le_trans utf8ByteSize_greeting (by decide)

theorem splitDots_greeting :
    splitDots greetingInput = [greetingHeader.toSegment, Issuer.segment (Bytes.ofText "hi")] := by
  rw [greetingInput, splitDots_append, Header.splitDots_toSegment, Issuer.splitDots_segment]
  rfl

theorem verifiesOwn_greeting {s : Signer} {m : KeyMaterial}
    (hs : plainIssuer.signer ⟨"HS256", .key (zeroKey "a")⟩ = .ok s)
    (hm : s.key.material = some m) : m.VerifiesOwn := by
  rw [signer_greeting, Except.ok.injEq] at hs
  subst hs
  cases hm
  exact KeyMaterial.verifiesOwn_symmetric _

/-! ### Accepting what was signed -/

/-- A signed token is accepted by every recipient that has the key it was signed with among its
keys, wherever it stands and whatever the others are. The payload and the header come back as they
were made, and so does the id of the key if it has one and the algorithm takes a key; a token
without a signature names no key. Nothing is asked of HMAC keys and of tokens without a signature,
and of others that what they sign verifies under them. -/
theorem decode_of_sign {i : Issuer} {o : Options} {payload : Bytes} {c : SigningCredentials}
    {extra : Header} {token : String} {e e' : Entropy}
    (htoken : i.encode payload ⟨some c, none⟩ extra e = (.ok token, e'))
    (hlen : token.utf8ByteSize ≤ o.maxTokenLength)
    (hsecured : c.algorithm = "none" → o.allowUnsecured = true)
    (hextra : extra.IsPlain) (hkid : extra.get? "kid" = none) (hcrit : extra.get? "crit" = none)
    (hown : ∀ s m, i.signer c = .ok s → s.key.material = some m → m.VerifiesOwn) :
    ∃ s, i.signer c = .ok s ∧
      (s.algorithm.keyType ≠ .none → c.source.Offers i.rings s.key) ∧
      (splitDots token).head? = some (i.signedHeader s extra).toSegment ∧
      ∀ keys, (s.algorithm.keyType ≠ .none → s.key ∈ keys) → ∀ entropy,
        ∃ t, (decode ⟨o, i.known, keys⟩ token entropy).1 = .ok t ∧
          t.header = i.signedHeader s extra ∧ t.payload = payload ∧ t.outerHeader = none ∧
          (s.algorithm.keyType ≠ .none → ∀ id, s.key.id = some id → t.keyId = some id) ∧
          (s.algorithm.keyType = .none → t.keyId = none) := by
  obtain ⟨s, signature, hs, hsign, rfl⟩ := Issuer.sign_eq_ok htoken
  have hparts := Issuer.splitDots_signed (i.signedHeader s extra) payload signature
  refine ⟨s, hs, (Issuer.signer_eq_ok hs).2.2.2.2, by rw [hparts]; rfl, ?_⟩
  intro keys hkeys entropy
  obtain ⟨t, ht, hheader, hpayload, houter, hid, hnone⟩ :=
    settled_of_sign (r := ⟨o, i.known, keys⟩) rfl hs hsign hextra hkid hcrit hsecured
      (fun m hm => hown s m hs hm) hkeys
  have hdecode := decode_signed (r := ⟨o, i.known, keys⟩)
    (p := ⟨(i.signedHeader s extra).toSegment, Issuer.segment payload, Issuer.segment signature⟩)
    hparts hlen entropy
  exact ⟨t, by rw [hdecode]; exact ht, hheader, hpayload, houter, fun _ => hid, hnone⟩

theorem decode_of_sign_greeting :
    ∃ token, plainIssuer.encode (Bytes.ofText "hi") ⟨some ⟨"HS256", .key (zeroKey "a")⟩, none⟩
        Header.empty (Entropy.scrambled 0) = (.ok token, Entropy.scrambled 0) ∧
      token.utf8ByteSize ≤ plainIssuer.options.maxTokenLength ∧ Header.empty.IsPlain ∧
      ∃ t, (decode ⟨plainIssuer.options, plainIssuer.known, [zeroKey "b", zeroKey "a"]⟩ token
          (Entropy.scrambled 1)).1 = .ok t ∧
        t.payload = Bytes.ofText "hi" ∧ t.keyId = some "a" := by
  obtain ⟨s, hs, -, -, hdecode⟩ := decode_of_sign (o := plainIssuer.options)
    (encode_greeting (Entropy.scrambled 0)) length_greeting (by decide) Header.isPlain_empty rfl rfl
    fun s m hs hm => verifiesOwn_greeting hs hm
  rw [signer_greeting, Except.ok.injEq] at hs
  subst hs
  obtain ⟨t, ht, -, hpayload, -, hid, -⟩ :=
    hdecode [zeroKey "b", zeroKey "a"] (by simp [greetingSigner]) (Entropy.scrambled 1)
  exact ⟨_, encode_greeting _, length_greeting, Header.isPlain_empty, t, ht, hpayload,
    hid (by decide) "a" rfl⟩

/-- The empty key may have an id, but a token without a signature does not name it. -/
theorem decode_unsecured_named :
    let k : SecretKey := .make (some "x") .none {}
    k.isDisposed = false ∧
      plainIssuer.encode (Bytes.ofText "hi") ⟨some ⟨"none", .key k⟩, none⟩ Header.empty
        (Entropy.scrambled 0) = (.ok "eyJhbGciOiJub25lIn0.aGk.", Entropy.scrambled 0) ∧
      ¬ ∃ t, (decode ⟨plainIssuer.options, plainIssuer.known, [k]⟩ "eyJhbGciOiJub25lIn0.aGk."
        (Entropy.scrambled 0)).1 = .ok t ∧ t.keyId = k.id := by
  intro k
  have hdecode : (decode ⟨plainIssuer.options, plainIssuer.known, [k]⟩ "eyJhbGciOiJub25lIn0.aGk."
      (Entropy.scrambled 0)).1.map (·.keyId) = .ok none := by
    cbv
  refine ⟨rfl, by cbv, ?_⟩
  rintro ⟨t, ht, hid⟩
  rw [ht, map_ok, Except.ok.injEq, hid] at hdecode
  cases hdecode

end Recipient

end TokenSeal
