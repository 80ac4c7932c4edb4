import TokenSeal.Proofs.SealedIssue
import TokenSeal.Proofs.Stored

/-! Encrypted tokens are opened by every recipient that holds the key they were made for, unless
another key opens them first. -/

namespace TokenSeal

theorem Algorithm.method_of_contentEncryption {a : Algorithm} (h : a ∈ builtin)
    (hfamily : a.family = .contentEncryption) :
    ∃ c, a.method = .contentEncryption c ∧ c.CutsTag ∧ 16 ≤ c.keyLength := by
  have hmem := (mem_of_family h).1 hfamily
  simp only [contentCiphers, List.mem_cons, List.not_mem_nil, or_false] at hmem
  obtain rfl | rfl | rfl | rfl | rfl | rfl := hmem <;>
    exact ⟨_, rfl, by simp [ContentCipher.CutsTag, HashId.size], by decide⟩

namespace Issuer

/-- What an encrypted token has inside: the payload, or a signed token with it. -/
def content (i : Issuer) (payload : Bytes) (signing : Option SigningCredentials) (extra : Header) :
    Draw TokenError Bytes :=
  match signing with
  | none => return payload
  | some s => do
    let inner ← i.sign payload s extra
    return Bytes.ofText inner

end Issuer

/-! ### The search for a key -/

namespace Recipient

/-- Keys that do not open a parcel of the right form are passed over. -/
theorem opening_append {p : Parcel} {method : KeyManagement}
    (hmethod : p.algorithm.method = .keyManagement method)
    (hform : KeyWrapper.formFault? p.limits method p.parameters = none)
    {before : List SecretKey} (rest : List SecretKey) {bindingFault : Option Fault}
    {attempted : Bool} {e : Entropy}
    (hnone : ∀ found, (opening p bindingFault attempted before e).1 ≠ .ok found) :
    ∃ bindingFault' attempted' e', opening p bindingFault attempted (before ++ rest) e =
      opening p bindingFault' attempted' rest e' := by
  induction before generalizing bindingFault attempted e with
  | nil => exact ⟨bindingFault, attempted, e, rfl⟩
  | cons k before ih =>
    rw [List.cons_append]
    cases hk : KeyWrapper.bind p.limits k p.algorithm with
    | error cause =>
      rw [opening_unbound hk] at hnone ⊢
      exact ih hnone
    | ok w =>
      obtain ⟨method', hmethod', -, rfl⟩ := KeyWrapper.bind_eq_ok.1 hk
      obtain rfl : method' = method := by
        rw [hmethod] at hmethod'
        cases hmethod'
        rfl
      rcases hw : KeyWrapper.unwrap ⟨k, p.algorithm, method', p.limits, {}⟩ p.encryptedKey
        p.parameters p.enc e with ⟨cause | contentKey, e₁⟩
      · have hcause : cause.kind ≠ .format :=
          KeyWrapper.formFree_unwrap hform p.encryptedKey p.enc e cause e₁ hw
        rw [opening_locked hk hw hcause] at hnone ⊢
        exact ih hnone
      · cases htext : p.contentUnder contentKey with
        | error cause =>
          rw [opening_forged hk hw htext] at hnone ⊢
          exact ih hnone
        | ok text =>
          rw [opening_found hk hw htext] at hnone
          exact absurd rfl (hnone (k, text))

theorem contenders_append {a : Algorithm} {h : Header} {k : SecretKey} (hsuits : k.Suits a)
    (ha : a.keyType ≠ .none) (hkid : h.get? "kid" = k.id.map .string)
    (before after : List SecretKey) :
    contenders a h (before ++ k :: after) = contenders a h before ++ k :: contenders a h after := by
  have hfits : isCandidate a ⟨h.kid?, .decode⟩ k = true := by
    refine isCandidate_decode.2 ⟨hsuits.1, hsuits.2.1, fun id hid => ?_⟩
    rw [Header.kid?, Header.text?_eq_some, hkid] at hid
    cases hk : k.id <;> simp_all
  simp [← candidates_eq_contenders, candidates, ha, hfits]

/-- One of the keys opens an encrypted token. A key that does not belong to it may still draw a
content key, so that this is about one stream of random bytes. -/
def Opens (r : Recipient) (token : String) (e : Entropy) : Prop :=
  ∃ p c found, CompactToken.parse token = .ok (.encrypted p) ∧ r.readSealed p = .ok c ∧
    (opening c.parcel none false (contenders c.parcel.algorithm c.header r.keys) e).1 = .ok found

theorem not_opens_nil {o : Options} {token : String} {e : Entropy} :
    ¬ Opens ⟨o, .ok Algorithm.builtin, []⟩ token e := by
  rintro ⟨p, c, found, -, hc, hfound⟩
  obtain ⟨hmem, hfamily⟩ := Known.mem_builtin (readSealed_eq_ok.1 hc).knownAlg
  rw [contenders, if_neg (Algorithm.keyType_of_keyManagement hmem hfamily), List.filter_nil,
    opening_nil] at hfound
  cases hfound

/-! ### Opening what was made -/

section Makes

variable {i : Issuer} {text : Bytes} {c : EncryptingCredentials} {cty : Option String}
  {extra : Header} {m : SealedMaking} {before : List SecretKey} {e : Entropy}

/-- The key that a token was made for opens it, whatever was seen before it and however random
bytes fall. -/
theorem opening_of_makes (h : i.Makes text c cty extra m)
    (hcuts : ∀ cipher, m.enc.method = .contentEncryption cipher → cipher.CutsTag)
    (hcount : ∀ hash bits, m.wrapper.method = .password hash bits → 1 ≤ i.options.iterations)
    (hkey : ∀ k, m.wrapper.key.material = some k → k.isPrivate = true ∧ k.Recovers)
    (bindingFault : Option Fault) (attempted : Bool) (rest : List SecretKey) (e : Entropy) :
    opening m.reading.parcel bindingFault attempted (m.wrapper.key :: rest) e =
      (.ok (m.wrapper.key, i.compressed m.zip text), e) := by
  obtain ⟨-, -, hmethod, hsuits, -⟩ := Issuer.wrapper_eq_ok h.wrapper
  obtain ⟨e₀, e₁, hwraps⟩ := h.wraps
  obtain ⟨n, k, hlength, hread, hwrapping⟩ := KeyWrapper.wrapping_of_wrapNew hwraps
  obtain ⟨hprivate, hrecovers⟩ := hkey k (SecretKey.read_eq_ok.1 hread)
  let w : KeyWrapper := ⟨m.wrapper.key, m.wrapper.algorithm, m.wrapper.method, m.wrapper.limits, {}⟩
  have hbind : KeyWrapper.bind m.wrapper.limits m.wrapper.key m.wrapper.algorithm = .ok w :=
    KeyWrapper.bind_eq_ok.2 ⟨m.wrapper.method, hmethod, hsuits, rfl⟩
  have hundoes : w.Undoes m.wrapper :=
    ⟨rfl, rfl, rfl, fun hash bits hpassword =>
      Issuer.iterations_of_wrapper h.wrapper (hcount hash bits hpassword)⟩
  obtain ⟨e₂, e₃, hseals⟩ := h.seals
  have hn : 16 ≤ n := hwrapping.length ▸ Issuer.keyLength_of_sealContent hseals
  exact opening_found hbind
    (KeyWrapper.unwrap_of_wrapping hundoes hlength hread hprivate hrecovers hn hwrapping e)
    (Parcel.contentUnder_of_sealContent hcuts hseals rfl)

theorem cutsTag_of_makes (h : i.Makes text c cty extra m)
    (hknown : i.known = .ok Algorithm.builtin) :
    ∀ cipher, m.enc.method = .contentEncryption cipher → cipher.CutsTag := by
  intro cipher hcipher
  have henc := h.enc
  rw [hknown] at henc
  obtain ⟨hmem, hfamily⟩ := Known.mem_builtin henc
  obtain ⟨cipher', hcipher', hcuts, -⟩ := Algorithm.method_of_contentEncryption hmem hfamily
  obtain rfl : cipher = cipher' := by simpa [hcipher] using hcipher'
  exact hcuts

theorem settleSealed_of_makes (h : i.Makes text c cty extra m)
    (hknown : i.known = .ok Algorithm.builtin) (hpos : 1 ≤ i.options.iterations)
    (hreserved : ∀ name ∈ Issuer.reservedNames, extra.get? name = none)
    (hzip : m.zip.isSome →
      Deflate.Restores i.deflate ∧ text.length ≤ i.options.maxDecompressedSize)
    (hkey : ∀ k, m.wrapper.key.material = some k → k.isPrivate = true ∧ k.Recovers)
    (hnone : ∀ found, (opening m.reading.parcel none false
      (contenders m.wrapper.algorithm m.header before) e).1 ≠ .ok found) (after : List SecretKey) :
    ∃ e', settleSealed ⟨i.options, i.known, before ++ m.wrapper.key :: after⟩ m.reading e =
      (.ok ⟨m.header, text, m.wrapper.key.id, none⟩, e') := by
  obtain ⟨hfind, -, hmethod, hsuits, -⟩ := Issuer.wrapper_eq_ok h.wrapper
  rw [hknown] at hfind
  obtain ⟨hmem, hfamily⟩ := Known.mem_builtin hfind
  have hkid : m.header.get? "kid" = m.wrapper.key.id.map .string :=
    h.get?_header (by simp) (hreserved _)
  have hsplit := contenders_append hsuits (Algorithm.keyType_of_keyManagement hmem hfamily) hkid
    before after
  have hkeys : keysFor ⟨i.options, i.known, before ++ m.wrapper.key :: after⟩ m.wrapper.algorithm
      m.wrapper.algorithm.code m.header = .ok (contenders m.wrapper.algorithm m.header before ++
        m.wrapper.key :: contenders m.wrapper.algorithm m.header after) := by
    rw [keysFor_eq, hsplit]
    simp
  obtain ⟨e₀, e₁, hwraps⟩ := h.wraps
  obtain ⟨n, k, -, -, hwrapping⟩ := KeyWrapper.wrapping_of_wrapNew hwraps
  have hform : KeyWrapper.formFault? m.wrapper.limits m.wrapper.method m.wrapped.parameters =
      none :=
    hwrapping.formFault?_eq_none (Issuer.iterations_of_wrapper h.wrapper hpos)
  obtain ⟨bindingFault, attempted, e', hopening⟩ := opening_append (p := m.reading.parcel) hmethod
    hform (m.wrapper.key :: contenders m.wrapper.algorithm m.header after) hnone
  rw [opening_of_makes h (cutsTag_of_makes h hknown) (fun _ _ _ => hpos) hkey] at hopening
  have hexpanded : expanded m.zip (i.compressed m.zip text) = .ok text := by
    cases hz : m.zip with
    | none => rfl
    | some z =>
      have hlimit := (Issuer.effectiveCompressor_eq_ok h.zip).2 z hz
      obtain ⟨hrestores, hsize⟩ := hzip (by simp [hz])
      exact Compressor.decompress_compress hrestores (hlimit ▸ hsize)
  exact ⟨e', settleSealed_of_opening hkeys hopening hexpanded⟩

theorem decode_of_makes {token : String} (h : i.Makes text c cty extra m)
    (hparts : splitDots token =
      [m.parts.header, m.parts.encryptedKey, m.parts.iv, m.parts.ciphertext, m.parts.tag])
    (hlen : token.utf8ByteSize ≤ i.options.maxTokenLength)
    (hknown : i.known = .ok Algorithm.builtin)
    (hiterations : 1 ≤ i.options.iterations ∧ i.options.iterations < 2 ^ 32)
    (hextra : extra.IsPlain) (hreserved : ∀ name ∈ Issuer.reservedNames, extra.get? name = none)
    (hzip : m.zip.isSome →
      Deflate.Restores i.deflate ∧ text.length ≤ i.options.maxDecompressedSize)
    (hkey : ∀ k, m.wrapper.key.material = some k → k.isPrivate = true ∧ k.Recovers)
    (hopens : ¬ Opens ⟨i.options, i.known, before⟩ token e) (after : List SecretKey) :
    ∃ e', decode ⟨i.options, i.known, before ++ m.wrapper.key :: after⟩ token e =
      unnest ⟨i.options, i.known, before ++ m.wrapper.key :: after⟩
        ⟨m.header, text, m.wrapper.key.id, none⟩ e' := by
  have hreads := fun keys => readSealed_eq_ok.2 (h.readsSealed hiterations.2 hextra hreserved keys)
  have hnone : ∀ found, (opening m.reading.parcel none false
      (contenders m.wrapper.algorithm m.header before) e).1 ≠ .ok found := by
    intro found hfound
    refine hopens ⟨m.parts, m.reading, found, ?_, hreads before, hfound⟩
    simp [CompactToken.parse, hparts]
  obtain ⟨e', hsettle⟩ := settleSealed_of_makes h hknown hiterations.1 hreserved hzip hkey
    hnone after
  exact ⟨e', decode_of_settled hparts hlen (hreads _) hsettle⟩

theorem isNested_of_makes (h : i.Makes text c cty extra m)
    (hreserved : ∀ name ∈ Issuer.reservedNames, extra.get? name = none) :
    m.header.isNested = cty.any Header.namesToken := by
  have hget : m.header.get? "cty" = cty.map .string := h.get?_header (by simp) (hreserved _)
  rw [Header.isNested, Header.cty?, Header.text?, hget]
  cases cty <;> rfl

theorem offers_of_makes (h : i.Makes text c cty extra m)
    (hknown : i.known = .ok Algorithm.builtin) : c.source.Offers i.rings m.wrapper.key := by
  obtain ⟨hfind, -, -, -, -, hoffers⟩ := Issuer.wrapper_eq_ok h.wrapper
  rw [hknown] at hfind
  obtain ⟨hmem, hfamily⟩ := Known.mem_builtin hfind
  exact hoffers (Algorithm.keyType_of_keyManagement hmem hfamily)

end Makes

/-- The token inside is read like any other, and keeps the header around it. -/
theorem openNested_of_text {r : Recipient} {outer : DecodedToken} {token : String}
    {p : SignedParts} (htext : Bytes.toText? outer.payload = some token)
    (hparts : splitDots token = [p.header, p.payload, p.signature]) :
    r.openNested outer = (r.readSigned p >>= r.settleSigned p).map fun inner =>
      { inner with outerHeader := some outer.header } := by
  rw [← openSigned_screenSigned]
  cases hscreen : r.options.screenSigned p with
  | error err => simp [openNested, htext, CompactToken.parse, hparts, hscreen]
  | ok t =>
    cases hopen : r.openSigned t <;>
      simp [openNested, htext, CompactToken.parse, hparts, hscreen, hopen]

theorem openNested_signed {r : Recipient} {outer : DecodedToken} {token : String}
    {p : SignedParts} (hpayload : outer.payload = Bytes.ofText token)
    (hparts : splitDots token = [p.header, p.payload, p.signature]) :
    r.openNested outer = (r.readSigned p >>= r.settleSigned p).map fun inner =>
      { inner with outerHeader := some outer.header } :=
  openNested_of_text (by rw [hpayload, Bytes.toText?_ofText]) hparts

theorem unnest_of_sign {i : Issuer} {r : Recipient} {s : SigningCredentials} {payload : Bytes}
    {extra : Header} {inner : String} {outer : DecodedToken} {e e' : Entropy}
    (hknown : r.known = i.known) (hinner : i.sign payload s extra e = (.ok inner, e'))
    (houter : outer.payload = Bytes.ofText inner) (hnested : outer.header.isNested = true)
    (hunwrap : r.options.unwrapNested = true) (hextra : extra.IsPlain)
    (hreserved : ∀ name ∈ Issuer.reservedNames, extra.get? name = none)
    (hsecured : s.algorithm = "none" → r.options.allowUnsecured = true)
    (hown : ∀ signer k, i.signer s = .ok signer → signer.key.material = some k → k.VerifiesOwn) :
    ∃ signer, i.signer s = .ok signer ∧
      (signer.algorithm.keyType ≠ .none → s.source.Offers i.rings signer.key) ∧
      ((signer.algorithm.keyType ≠ .none → signer.key ∈ r.keys) → ∀ entropy,
        ∃ t, (r.unnest outer entropy).1 = .ok t ∧ t.header = i.signedHeader signer extra ∧
          t.payload = payload ∧ t.outerHeader = some outer.header ∧
          (signer.algorithm.keyType ≠ .none → ∀ id, signer.key.id = some id → t.keyId = some id) ∧
          (signer.algorithm.keyType = .none → t.keyId = none)) := by
  obtain ⟨signer, signature, hs, hsign, rfl⟩ := Issuer.sign_eq_ok hinner
  refine ⟨signer, hs, (Issuer.signer_eq_ok hs).2.2.2.2, fun hmem entropy => ?_⟩
  obtain ⟨t, ht, hheader, hpayload, -, hid, hnone⟩ := settled_of_sign hknown hs hsign hextra
    (hreserved "kid" (by simp [Issuer.reservedNames]))
    (hreserved "crit" (by simp [Issuer.reservedNames])) hsecured (fun k hk => hown signer k hs hk)
    hmem
  have hopen : r.openNested outer = .ok { t with outerHeader := some outer.header } := by
    rw [openNested_signed (p := ⟨(i.signedHeader signer extra).toSegment, Issuer.segment payload,
      Issuer.segment signature⟩) houter (Issuer.splitDots_signed _ _ _)]
    exact congrArg (Except.map _) ht
  refine ⟨{ t with outerHeader := some outer.header }, ?_, hheader, hpayload, rfl, fun _ => hid,
    hnone⟩
  rw [unnest, if_pos ⟨hunwrap, hnested⟩, hopen]
  rfl

/-! ### A shared key -/

/-- A symmetric key of 16 zero bytes, shared directly. -/
def sharedKey : SecretKey := .make (some "e") (.symmetric (Bytes.zeros 16)) {}

def sharedCredentials : EncryptingCredentials := ⟨"dir", "A128GCM", none, .key sharedKey, {}⟩

def sharedWrapper : KeyWrapper :=
  ⟨sharedKey, Algorithm.direct, .direct, plainIssuer.options.passwordLimits, {}⟩

def sharedHeader (cty : Option String) (extra : Header) : Header :=
  Issuer.finishHeader plainIssuer.options (Issuer.sealedMembers sharedWrapper
    (Algorithm.cipher "A128GCM" (.gcm 128)) none cty .none) extra

/-- The header around another token. -/
def nestingHeader : Header := sharedHeader (some "JWT") Header.empty

def sharedContent (header : Header) (text : Bytes) (e : Entropy) : Sealed :=
  let sealed := Gcm.encrypt (Aes.Schedule.ofKey (Bytes.zeros 16)) (e.take 12)
    (Bytes.ofText header.toSegment) text
  ⟨sealed.1, e.take 12, sealed.2⟩

def sharedToken (header : Header) (text : Bytes) (e : Entropy) : String :=
  let content := sharedContent header text e
  joinDots [header.toSegment, Issuer.segment [], Issuer.segment content.iv,
    Issuer.segment content.ciphertext, Issuer.segment content.tag]

theorem wrapper_shared : plainIssuer.wrapper sharedCredentials = .ok sharedWrapper := rfl

theorem sealContent_shared (header : Header) (text : Bytes) (e : Entropy) :
    Issuer.sealContent (Algorithm.cipher "A128GCM" (.gcm 128)) (Bytes.zeros 16) text
      header.toSegment e = (.ok (sharedContent header text e), e.advance 12) := by
  let sealer : Sealer :=
    ⟨Issuer.contentKey (Bytes.zeros 16), Algorithm.cipher "A128GCM" (.gcm 128), .gcm 128⟩
  have hbind : Sealer.bind (Issuer.contentKey (Bytes.zeros 16))
      (Algorithm.cipher "A128GCM" (.gcm 128)) = .ok sealer := rfl
  have hseal : sealer.sealWith (e.take 12) text (Bytes.ofText header.toSegment) =
      .ok (sharedContent header text e) := by
    have hiv : (e.take 12).length = sealer.cipher.ivLength := by
      simp [Entropy.take, sealer, ContentCipher.ivLength]
    rw [Sealer.sealWith, if_neg (not_not.2 hiv)]
    rfl
  rw [Issuer.sealContent, hbind, Draw.ofExcept_ok_bind, Sealer.encrypt]
  exact (Draw.bind_ok (Draw.bytes_apply 12 e)).trans (by rw [hseal]; rfl)

def sharedMaking (cty : Option String) (extra : Header) (text : Bytes) (e : Entropy) :
    SealedMaking :=
  ⟨sharedWrapper, Algorithm.cipher "A128GCM" (.gcm 128), none, ⟨Bytes.zeros 16, [], .none⟩,
    sharedHeader cty extra, sharedContent (sharedHeader cty extra) text e⟩

theorem makes_encrypt_shared (text : Bytes) (cty : Option String) (extra : Header) (e : Entropy) :
    plainIssuer.Makes text sharedCredentials cty extra (sharedMaking cty extra text e) ∧
      plainIssuer.encrypt text sharedCredentials cty extra e =
        (.ok (sharedToken (sharedHeader cty extra) text e), e.advance 12) :=
  Issuer.encrypt_of_sealContent (m := sharedMaking cty extra text e) wrapper_shared rfl rfl rfl rfl
    (sealContent_shared (sharedHeader cty extra) text e)

theorem makes_shared (text : Bytes) (cty : Option String) (extra : Header) (e : Entropy) :
    plainIssuer.Makes text sharedCredentials cty extra (sharedMaking cty extra text e) :=
  (makes_encrypt_shared text cty extra e).1

theorem encrypt_shared (text : Bytes) (cty : Option String) (extra : Header) (e : Entropy) :
    plainIssuer.encrypt text sharedCredentials cty extra e =
      (.ok (sharedToken (sharedHeader cty extra) text e), e.advance 12) :=
  (makes_encrypt_shared text cty extra e).2

theorem encode_shared {s : SigningCredentials} {inner : String} {e : Entropy}
    (h : plainIssuer.sign (Bytes.ofText "hi") s Header.empty e = (.ok inner, e)) :
    plainIssuer.encode (Bytes.ofText "hi") ⟨some s, some sharedCredentials⟩ Header.empty e =
      (.ok (sharedToken nestingHeader (Bytes.ofText inner) e), e.advance 12) :=
  (Draw.bind_ok h).trans (encrypt_shared _ _ _ e)

theorem recovers_shared {w : KeyWrapper} {k : KeyMaterial}
    (hw : plainIssuer.wrapper sharedCredentials = .ok w) (hk : w.key.material = some k) :
    k.isPrivate = true ∧ k.Recovers := by
  rw [wrapper_shared, Except.ok.injEq] at hw
  subst hw
  cases hk
  exact ⟨rfl, KeyMaterial.recovers_symmetric _⟩

theorem length_shared {header : Header} {text : Bytes}
    (hheader : header.render.utf8ByteSize ≤ 100) (h : text.length ≤ 1000) (e : Entropy) :
    (sharedToken header text e).utf8ByteSize ≤ plainIssuer.options.maxTokenLength := by
  have hlast : ∀ segment, joinDots [segment] = segment := by simp [joinDots]
  have hdot : ".".utf8ByteSize = 1 := by decide
  have hmax : plainIssuer.options.maxTokenLength = 1024 * 1024 := rfl
  rw [← Bytes.length_ofText] at hheader
  simp only [sharedToken, joinDots_cons_cons, hlast, String.utf8ByteSize_append, hdot,
    Issuer.segment, Header.toSegment, Base64Url.utf8ByteSize_encode, sharedContent, Gcm.encrypt,
    Gcm.length_applyKeystream, Gcm.length_tagOf, Gcm.tagLength, Entropy.take, List.length_map,
    List.length_range, List.length_nil, Base64Url.encodedLength, hmax]
  omega

theorem length_nested {text : Bytes} (h : text.length ≤ 1000) (e : Entropy) :
    (sharedToken nestingHeader text e).utf8ByteSize ≤ plainIssuer.options.maxTokenLength := by
  have hheader : nestingHeader.render =
      "\x7b\"alg\":\"dir\",\"enc\":\"A128GCM\",\"kid\":\"e\",\"cty\":\"JWT\"\x7d" := by
    cbv
  exact length_shared (by rw [hheader]; decide) h e

theorem length_bare {text : Bytes} (h : text.length ≤ 1000) (e : Entropy) :
    (sharedToken (sharedHeader none Header.empty) text e).utf8ByteSize ≤
      plainIssuer.options.maxTokenLength := by
  have hheader : (sharedHeader none Header.empty).render =
      "\x7b\"alg\":\"dir\",\"enc\":\"A128GCM\",\"kid\":\"e\"\x7d" := by
    cbv
  exact length_shared (by rw [hheader]; decide) h e

/-! ### A shared key and a compression -/

/-- The plain issuer with a deflater that stores. -/
def storingIssuer : Issuer := { plainIssuer with deflate := Deflate.store }

def storingCredentials : EncryptingCredentials :=
  { sharedCredentials with compression := some "DEF" }

def storingCompressor : Compressor :=
  ⟨⟨"DEF", .none, [.exact 0], 0, .compression .deflate⟩, .deflate,
    storingIssuer.options.maxDecompressedSize⟩

def storingHeader : Header :=
  Issuer.finishHeader storingIssuer.options (Issuer.sealedMembers sharedWrapper
    (Algorithm.cipher "A128GCM" (.gcm 128)) (some storingCompressor) none .none) Header.empty

def storingMaking (text : Bytes) (e : Entropy) : SealedMaking :=
  ⟨sharedWrapper, Algorithm.cipher "A128GCM" (.gcm 128), some storingCompressor,
    ⟨Bytes.zeros 16, [], .none⟩, storingHeader, sharedContent storingHeader (Deflate.store text) e⟩

theorem encrypt_storing (text : Bytes) (e : Entropy) :
    storingIssuer.encrypt text storingCredentials none Header.empty e =
      (.ok (sharedToken storingHeader (Deflate.store text) e), e.advance 12) := by
  have hwrapper : storingIssuer.wrapper storingCredentials = .ok sharedWrapper := rfl
  have hzip : storingIssuer.effectiveCompressor storingCredentials.compression =
      .ok (some storingCompressor) := rfl
  have hcompressed : storingIssuer.compressed (some storingCompressor) text = Deflate.store text :=
    rfl
  have hseal := sealContent_shared storingHeader (Deflate.store text) e
  rw [← hcompressed] at hseal
  let m := storingMaking text e
  exact (Issuer.encrypt_of_sealContent (m := m) hwrapper rfl hzip rfl rfl hseal).2

theorem length_storing (e : Entropy) :
    (sharedToken storingHeader (Deflate.store (Bytes.ofText "hi")) e).utf8ByteSize ≤
      storingIssuer.options.maxTokenLength := by
  have hheader : storingHeader.render =
      "\x7b\"alg\":\"dir\",\"enc\":\"A128GCM\",\"zip\":\"DEF\",\"kid\":\"e\"\x7d" := by
    cbv
  exact length_shared (by rw [hheader]; decide) (by decide) e

/-! ### Opening what was encrypted -/

/-- An encrypted token is opened by every recipient that has the key it was made for among its
keys, wherever it stands, if none of the keys before it opens the token: the payload, the header and
the id of the key come back. Of a signed token inside it is the payload, the header and the id of
its own key that come back, with the header of the encrypted token around them. Keys over curves are
asked to agree, RSA keys to be inverse to themselves, signing keys to verify what they sign and the
deflater, where there is compression, to restore. -/
theorem decode_of_encrypt {i : Issuer} {payload : Bytes} {signing : Option SigningCredentials}
    {c : EncryptingCredentials} {extra : Header} {token : String} {e e' : Entropy}
    (htoken : i.encode payload ⟨signing, some c⟩ extra e = (.ok token, e'))
    (hlen : token.utf8ByteSize ≤ i.options.maxTokenLength)
    (hknown : i.known = .ok Algorithm.builtin)
    (hiterations : 1 ≤ i.options.iterations ∧ i.options.iterations < 2 ^ 32)
    (hextra : extra.IsPlain) (hreserved : ∀ name ∈ Issuer.reservedNames, extra.get? name = none)
    (hrestores : ∀ z, i.effectiveCompressor c.compression = .ok (some z) →
      Deflate.Restores i.deflate)
    (hsize : ∀ z text, i.effectiveCompressor c.compression = .ok (some z) →
      (i.content payload signing extra e).1 = .ok text →
        text.length ≤ i.options.maxDecompressedSize)
    (hkey : ∀ w k, i.wrapper c = .ok w → w.key.material = some k →
      k.isPrivate = true ∧ k.Recovers)
    (hunwrap : signing.isSome → i.options.unwrapNested = true)
    (hsecured : ∀ s, signing = some s → s.algorithm = "none" → i.options.allowUnsecured = true)
    (hown : ∀ s signer k, signing = some s → i.signer s = .ok signer →
      signer.key.material = some k → k.VerifiesOwn) :
    ∃ w header, i.wrapper c = .ok w ∧ c.source.Offers i.rings w.key ∧
      (splitDots token).head? = some header.toSegment ∧
      ∀ before after entropy, ¬ Opens ⟨i.options, i.known, before⟩ token entropy →
        let r : Recipient := ⟨i.options, i.known, before ++ w.key :: after⟩
        (signing = none → (r.decode token entropy).1 = .ok ⟨header, payload, w.key.id, none⟩) ∧
        ∀ s, signing = some s → ∃ signer, i.signer s = .ok signer ∧
          (signer.algorithm.keyType ≠ .none → s.source.Offers i.rings signer.key) ∧
          ((signer.algorithm.keyType ≠ .none → signer.key ∈ r.keys) →
            ∃ t, (r.decode token entropy).1 = .ok t ∧ t.header = i.signedHeader signer extra ∧
              t.payload = payload ∧ t.outerHeader = some header ∧
              (signer.algorithm.keyType ≠ .none →
                ∀ id, signer.key.id = some id → t.keyId = some id) ∧
              (signer.algorithm.keyType = .none → t.keyId = none)) := by
  have hlimit : ∀ {m : SealedMaking} {text : Bytes} {cty : Option String} {outerExtra : Header},
      i.Makes text c cty outerExtra m → (i.content payload signing extra e).1 = .ok text →
        m.zip.isSome →
          Deflate.Restores i.deflate ∧ text.length ≤ i.options.maxDecompressedSize := by
    intro m text cty outerExtra hm htext hzip
    obtain ⟨z, hz⟩ := Option.isSome_iff_exists.1 hzip
    have hasked : i.effectiveCompressor c.compression = .ok (some z) := by rw [hm.zip, hz]
    exact ⟨hrestores z hasked, hsize z text hasked htext⟩
  cases signing with
  | none =>
    obtain ⟨m, hm, hparts⟩ := Issuer.encrypt_eq_ok htoken
    refine ⟨m.wrapper, m.header, hm.wrapper, offers_of_makes hm hknown, by rw [hparts]; rfl, ?_⟩
    intro before after entropy hopens r
    refine ⟨fun _ => ?_, fun s hs => by simp at hs⟩
    obtain ⟨e₁, hdecode⟩ := decode_of_makes hm hparts hlen hknown hiterations hextra hreserved
      (hlimit hm rfl) (fun k hk => hkey _ k hm.wrapper hk) hopens after
    have hplain : m.header.isNested = false := isNested_of_makes hm hreserved
    rw [hdecode, unnest_of_plain r hplain, Draw.pure_apply]
  | some s =>
    obtain ⟨inner, e₁, hinner, henc⟩ := Draw.bind_eq_ok.1 htoken
    obtain ⟨m, hm, hparts⟩ := Issuer.encrypt_eq_ok henc
    refine ⟨m.wrapper, m.header, hm.wrapper, offers_of_makes hm hknown, by rw [hparts]; rfl, ?_⟩
    intro before after entropy hopens r
    refine ⟨fun hs => by simp at hs, fun s' hs' => ?_⟩
    obtain rfl : s = s' := by simpa using hs'
    have hempty : ∀ name ∈ Issuer.reservedNames, Header.empty.get? name = none := fun _ _ => rfl
    have hcontent : (i.content payload (some s) extra e).1 = .ok (Bytes.ofText inner) := by
      rw [Issuer.content, Draw.bind_ok hinner]
      rfl
    obtain ⟨e₂, hdecode⟩ := decode_of_makes hm hparts hlen hknown hiterations Header.isPlain_empty
      hempty (hlimit hm hcontent) (fun k hk => hkey _ k hm.wrapper hk) hopens after
    have hnested : m.header.isNested = true := isNested_of_makes hm hempty
    let outer : DecodedToken := ⟨m.header, Bytes.ofText inner, m.wrapper.key.id, none⟩
    have hpayload : outer.payload = Bytes.ofText inner := rfl
    obtain ⟨signer, hs, hoffers, hunnest⟩ := unnest_of_sign (r := r) rfl hinner hpayload hnested
      (hunwrap rfl) hextra hreserved (hsecured s rfl) (fun signer k => hown s signer k rfl)
    refine ⟨signer, hs, hoffers, fun hmem => ?_⟩
    rw [hdecode]
    exact hunnest hmem e₂

theorem decode_of_encrypt_greeting :
    let signing : SigningCredentials := ⟨"HS256", .key (zeroKey "a")⟩
    let e := Entropy.scrambled 0
    (∃ token, plainIssuer.encode (Bytes.ofText "hi") ⟨some signing, some sharedCredentials⟩
        Header.empty e = (.ok token, e.advance 12) ∧
      token.utf8ByteSize ≤ plainIssuer.options.maxTokenLength ∧
      ¬ Opens ⟨plainIssuer.options, plainIssuer.known, []⟩ token (Entropy.scrambled 1) ∧
      ∃ t, (decode ⟨plainIssuer.options, plainIssuer.known, [sharedKey, zeroKey "a"]⟩ token
          (Entropy.scrambled 1)).1 = .ok t ∧
        t.payload = Bytes.ofText "hi" ∧ t.keyId = some "a" ∧ t.outerHeader.isSome) ∧
    Deflate.Restores storingIssuer.deflate ∧
    ∃ token header, storingIssuer.encode (Bytes.ofText "hi") ⟨none, some storingCredentials⟩
        Header.empty e = (.ok token, e.advance 12) ∧
      ∀ entropy, (decode ⟨storingIssuer.options, storingIssuer.known, [sharedKey]⟩ token
        entropy).1 = .ok ⟨header, Bytes.ofText "hi", some "e", none⟩ := by
  intro signing e
  refine ⟨?_, Deflate.restores_store, ?_⟩
  · have hinner : plainIssuer.sign (Bytes.ofText "hi") signing Header.empty e =
        (.ok (greetingInput ++ "." ++ Issuer.segment greetingTag), e) := rfl
    have htoken := encode_shared hinner
    have hsize :
        (Bytes.ofText (greetingInput ++ "." ++ Issuer.segment greetingTag)).length ≤ 1000 := by
      rw [Bytes.length_ofText]
      exact utf8ByteSize_greeting
    have hlen := length_nested hsize e
    obtain ⟨w, header, hw, -, -, hdecode⟩ := decode_of_encrypt htoken hlen rfl (by decide)
      Header.isPlain_empty (fun _ _ => rfl) (fun z hz => by cases hz) (fun z text hz => by cases hz)
      (fun w k hw hk => recovers_shared hw hk) (fun _ => rfl) (fun s hs => by cases hs; decide)
      (fun s signer k hs hsigner hk => by cases hs; exact verifiesOwn_greeting hsigner hk)
    rw [wrapper_shared, Except.ok.injEq] at hw
    subst hw
    obtain ⟨-, hnested⟩ := hdecode [] [zeroKey "a"] (Entropy.scrambled 1) not_opens_nil
    obtain ⟨signer, hsigner, -, hopen⟩ := hnested signing rfl
    rw [signer_greeting, Except.ok.injEq] at hsigner
    subst hsigner
    obtain ⟨t, ht, -, hpayload, houter, hid, -⟩ := hopen fun _ => by simp [greetingSigner]
    exact ⟨_, htoken, hlen, not_opens_nil, t, ht, hpayload, hid (by decide) "a" rfl,
      by simp [houter]⟩
  · have htoken : storingIssuer.encode (Bytes.ofText "hi") ⟨none, some storingCredentials⟩
        Header.empty e = (.ok (sharedToken storingHeader (Deflate.store (Bytes.ofText "hi")) e),
          e.advance 12) := encrypt_storing _ e
    obtain ⟨w, header, hw, -, -, hdecode⟩ := decode_of_encrypt htoken (length_storing e) rfl
      (by decide) Header.isPlain_empty (fun _ _ => rfl) (fun _ _ => Deflate.restores_store)
      (fun z text _ htext => by cases htext; decide) (fun w k hw hk => recovers_shared hw hk)
      (fun hs => by cases hs) (fun s hs => by cases hs) (fun s signer k hs => by cases hs)
    obtain rfl : sharedWrapper = w := Except.ok.inj hw
    exact ⟨_, header, htoken, fun entropy => (hdecode [] [] entropy not_opens_nil).1 rfl⟩

/-- A key with an id may stand behind a token without a signature, but is not named for it. -/
theorem decode_nested_unsecured_named :
    let k : SecretKey := .make (some "x") (.symmetric [0]) {}
    let e := Entropy.scrambled 0
    k.isDisposed = false ∧
      ∃ token, plainIssuer.encode (Bytes.ofText "hi")
          ⟨some ⟨"none", .key k⟩, some sharedCredentials⟩ Header.empty e =
            (.ok token, e.advance 12) ∧
        token.utf8ByteSize ≤ plainIssuer.options.maxTokenLength ∧
        ∃ t, (decode ⟨plainIssuer.options, plainIssuer.known, [sharedKey, k]⟩ token
            (Entropy.scrambled 1)).1 = .ok t ∧
          t.payload = Bytes.ofText "hi" ∧ t.keyId ≠ k.id := by
  intro k e
  obtain ⟨inner, hinner, hsize⟩ : ∃ inner, plainIssuer.sign (Bytes.ofText "hi") ⟨"none", .key k⟩
      Header.empty e = (.ok inner, e) ∧ (Bytes.ofText inner).length ≤ 1000 :=
    ⟨"eyJhbGciOiJub25lIn0.aGk.", by cbv, by decide⟩
  have hsigner : plainIssuer.signer ⟨"none", .key k⟩ =
      .ok ⟨SecretKey.empty, Algorithm.unsecured, .unsecured, 0⟩ := rfl
  have hlen := length_nested hsize e
  obtain ⟨m, hm, hparts⟩ :=
    Issuer.encrypt_eq_ok (encrypt_shared (Bytes.ofText inner) (some "JWT") Header.empty e)
  have hw : m.wrapper = sharedWrapper := Except.ok.inj (hm.wrapper.symm.trans wrapper_shared)
  have hzip : m.zip = none := Except.ok.inj (hm.zip.symm.trans rfl)
  obtain ⟨e₁, hdecode⟩ := decode_of_makes hm hparts hlen rfl (by decide) Header.isPlain_empty
    (fun _ _ => rfl) (by simp [hzip]) (fun k hk => recovers_shared hm.wrapper hk) not_opens_nil [k]
  let outer : DecodedToken := ⟨m.header, Bytes.ofText inner, m.wrapper.key.id, none⟩
  have hnested : outer.header.isNested = true := isNested_of_makes hm fun _ _ => rfl
  have hpayload : outer.payload = Bytes.ofText inner := rfl
  obtain ⟨signer, hs, -, hunnest⟩ :=
    unnest_of_sign (r := ⟨plainIssuer.options, plainIssuer.known, [] ++ m.wrapper.key :: [k]⟩) rfl
      hinner hpayload hnested rfl Header.isPlain_empty (fun _ _ => rfl) (fun _ => rfl)
      (fun signer material hs hm => by
        rw [hsigner, Except.ok.injEq] at hs
        subst hs
        cases hm
        exact KeyMaterial.verifiesOwn_none)
  rw [hsigner, Except.ok.injEq] at hs
  subst hs
  obtain ⟨t, ht, -, hhi, -, -, hnone⟩ := hunnest (fun hkeyed => absurd rfl hkeyed) e₁
  rw [← hdecode, hw] at ht
  exact ⟨rfl, _, encode_shared hinner, hlen, t, ht, hhi, by simp [hnone rfl, k, SecretKey.make]⟩

end Recipient

end TokenSeal
