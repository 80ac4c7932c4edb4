import TokenSeal.Proofs.LastSegment
import TokenSeal.Proofs.SealedRoundTrip

/-! Members that are added to a header do not change how a token is read, as long as none of them
has a name that the recipient looks for and the issuer has left out. -/

namespace TokenSeal

/-! ### What a recipient looks for -/

/-- The members that the parameters of a method are read from. -/
def KeyManagement.memberNames : KeyManagement → List String
  | .gcmWrap _ => ["iv", "tag"]
  | .agreement _ => ["epk", "apu", "apv"]
  | .password _ _ => ["p2s", "p2c"]
  | _ => []

/-- The members that a recipient goes by when it reads a token under an algorithm. -/
def Algorithm.memberNames (a : Algorithm) : List String :=
  match a.method with
  | .keyManagement m => ["alg", "enc", "zip", "kid"] ++ m.memberNames
  | _ => if a.keyType = .none then ["alg"] else ["alg", "kid"]

theorem Header.parameters_congr {h h' : Header} {m : KeyManagement}
    (hsame : ∀ name ∈ m.memberNames, h'.get? name = h.get? name) :
    h'.parameters m = h.parameters m := by
  cases m <;> simp [KeyManagement.memberNames] at hsame <;>
    simp [parameters, requiredBytes, optionalBytes, ephemeral, iterationCount, text?, hsame]

/-- A member that is there is not replaced, and one that is not is only there if it was added. -/
theorem Header.get?_finishHeader_of_silent {o : Options} {mandated extra : Header} {name : String}
    (hname : name ≠ "typ")
    (hsilent : (Issuer.finishHeader o mandated empty).get? name = none → extra.get? name = none) :
    (Issuer.finishHeader o mandated extra).get? name =
      (Issuer.finishHeader o mandated empty).get? name := by
  rw [get?_finishHeader, get?_finishHeader, get?_empty, if_neg hname] at *
  cases hget : mandated.get? name with
  | some v => simp
  | none => simpa [hget] using hsilent

theorem Algorithm.typ_notMem_memberNames (a : Algorithm) : "typ" ∉ a.memberNames := by
  unfold memberNames
  split
  · next m _ => cases m <;> simp [KeyManagement.memberNames]
  · split <;> simp

namespace Recipient

theorem contenders_congr {a : Algorithm} {h h' : Header}
    (hkid : a.keyType ≠ .none → h'.get? "kid" = h.get? "kid") (keys : List SecretKey) :
    contenders a h' keys = contenders a h keys := by
  by_cases ha : a.keyType = .none
  · simp [contenders, ha]
  · simp [contenders, ha, hkid ha]

/-! ### Signed tokens -/

section Sign

variable {i : Issuer} {c : SigningCredentials} {s : Signer} {k : SecretKey}
  {payload signature : Bytes} {extra : Header} {e e' : Entropy} {t : DecodedToken}

/-- What the holder of one key reads shows that the key it went by is the signer's. -/
theorem contenders_of_settled (hs : i.signer c = .ok s)
    (hkey : s.algorithm.keyType ≠ .none → k = s.key) {p : SignedParts}
    (hp : p = ⟨(i.signedHeader s Header.empty).toSegment, Issuer.segment payload,
      Issuer.segment signature⟩)
    (hsettled : (readSigned ⟨i.options, i.known, [k]⟩ p >>=
      settleSigned ⟨i.options, i.known, [k]⟩ p) = .ok t) :
    contenders s.algorithm (i.signedHeader s Header.empty) [k] = [s.key] ∧
      (c.algorithm = "none" → i.options.allowUnsecured = true) ∧
      t = ⟨i.signedHeader s Header.empty, payload, s.key.id, none⟩ := by
  obtain ⟨-, hcode, -, hempty, -⟩ := Issuer.signer_eq_ok hs
  obtain ⟨c₀, hreads, k₀, hfind, rfl⟩ := settled_eq_ok.1 hsettled
  subst hp
  have hheader : c₀.header = i.signedHeader s Header.empty :=
    Except.ok.inj ((Header.ofSegment_eq_ok.2 hreads.header).symm.trans
      (Header.ofSegment_toSegment (Issuer.isPlain_signedHeader i s Header.isPlain_empty)))
  have halg : c₀.algorithm.code = s.algorithm.code := by
    have hget := hreads.alg
    rw [hheader, Issuer.get?_signedHeader_alg] at hget
    simpa using hget.symm
  have hsecured : c.algorithm = "none" → i.options.allowUnsecured = true :=
    fun hnone => hreads.secured (halg.trans (hcode.trans hnone))
  have hmade := reads_of_sign (r := ⟨i.options, i.known, [k]⟩) payload signature rfl hs
    Header.isPlain_empty rfl hsecured
  obtain rfl := Except.ok.inj
    ((readSigned_eq_ok.2 hreads).symm.trans (readSigned_eq_ok.2 hmade))
  have hmem : k₀ ∈ contenders s.algorithm (i.signedHeader s Header.empty) [k] :=
    List.mem_of_find?_eq_some hfind
  have hsame : k₀ = s.key := by
    by_cases ha : s.algorithm.keyType = .none
    · simpa [contenders, ha, hempty ha] using hmem
    · rw [← hkey ha]
      simp only [contenders, ha, if_false] at hmem
      exact List.mem_singleton.1 (List.mem_filter.1 hmem).1
  subst hsame
  exact ⟨contenders_single hmem, hsecured, rfl⟩

theorem settled_of_contenders (hs : i.signer c = .ok s)
    (hsign : s.sign (Bytes.ofText ((i.signedHeader s extra).toSegment ++ "." ++
      Issuer.segment payload)) e = (.ok signature, e'))
    (hextra : extra.IsPlain) (hcrit : extra.get? "crit" = none)
    (hsecured : c.algorithm = "none" → i.options.allowUnsecured = true)
    (hown : ∀ m, s.key.material = some m → m.VerifiesOwn)
    (hcont : contenders s.algorithm (i.signedHeader s extra) [k] = [s.key]) {p : SignedParts}
    (hp : p = ⟨(i.signedHeader s extra).toSegment, Issuer.segment payload,
      Issuer.segment signature⟩) :
    (readSigned ⟨i.options, i.known, [k]⟩ p >>= settleSigned ⟨i.options, i.known, [k]⟩ p) =
      .ok ⟨i.signedHeader s extra, payload, s.key.id, none⟩ := by
  subst hp
  have hreads := reads_of_sign (r := ⟨i.options, i.known, [k]⟩) payload signature rfl hs hextra
    hcrit hsecured
  refine settled_eq_ok.2 ⟨_, hreads, s.key, ?_, rfl⟩
  rw [hcont]
  exact List.find?_cons_of_pos (verifies_of_sign hs hown hsign)

theorem decode_signed_of_extra {token token' : String} {e₀ e₁ e₂ e₃ : Entropy}
    (hs : i.signer c = .ok s) (hkey : s.algorithm.keyType ≠ .none → k = s.key)
    (htoken : i.sign payload c Header.empty e = (.ok token, e₁))
    (htoken' : i.sign payload c extra e₀ = (.ok token', e₂))
    (hlen' : token'.utf8ByteSize ≤ i.options.maxTokenLength) (hextra : extra.IsPlain)
    (hcrit : extra.get? "crit" = none) (hown : ∀ m, k.material = some m → m.VerifiesOwn)
    (hdecode : (decode ⟨i.options, i.known, [k]⟩ token e₃).1 = .ok t)
    (hkid : s.algorithm.keyType ≠ .none → t.header.get? "kid" = none → extra.get? "kid" = none)
    (e' : Entropy) :
    t = ⟨i.signedHeader s Header.empty, payload, s.key.id, none⟩ ∧
      (decode ⟨i.options, i.known, [k]⟩ token' e').1 =
        .ok ⟨i.signedHeader s extra, payload, s.key.id, none⟩ := by
  obtain ⟨s, signature, hs₁, -, rfl⟩ := Issuer.sign_eq_ok htoken
  obtain rfl := Except.ok.inj (hs.symm.trans hs₁)
  obtain ⟨s, signature', hs₂, hsign, rfl⟩ := Issuer.sign_eq_ok htoken'
  obtain rfl := Except.ok.inj (hs.symm.trans hs₂)
  rw [decode_signed (p := ⟨_, _, _⟩) (Issuer.splitDots_signed _ payload signature)
    (length_of_decode hdecode)] at hdecode
  obtain ⟨hcont, hsecured, rfl⟩ := contenders_of_settled hs hkey rfl hdecode
  -- The same key is tried when the token names the same key.
  have hsame : s.algorithm.keyType ≠ .none → (i.signedHeader s extra).get? "kid" =
      (i.signedHeader s Header.empty).get? "kid" := fun ha =>
    Header.get?_finishHeader_of_silent (by decide) (hkid ha)
  have hcont' : contenders s.algorithm (i.signedHeader s extra) [k] = [s.key] := by
    rw [contenders_congr hsame, hcont]
  have hown' : ∀ m, s.key.material = some m → m.VerifiesOwn := by
    obtain ⟨-, -, -, hempty, -⟩ := Issuer.signer_eq_ok hs
    intro m hm
    by_cases ha : s.algorithm.keyType = .none
    · rw [hempty ha] at hm
      cases hm
      exact KeyMaterial.verifiesOwn_none
    · rw [← hkey ha] at hm
      exact hown m hm
  refine ⟨rfl, ?_⟩
  rw [decode_signed (p := ⟨_, _, _⟩) (Issuer.splitDots_signed _ payload signature') hlen']
  exact settled_of_contenders hs hsign hextra hcrit hsecured hown' hcont' rfl

end Sign

/-! ### Encrypted tokens -/

section Makes

variable {i : Issuer} {text : Bytes} {c : EncryptingCredentials} {extra : Header}
  {m m' : SealedMaking}

theorem readsSealed_of_extra (hm : i.Makes text c none Header.empty m)
    (hm' : i.Makes text c none extra m') (hwrapped : m'.wrapped = m.wrapped)
    (hcount : i.options.iterations < 2 ^ 32) (hextra : extra.IsPlain)
    (hcrit : extra.get? "crit" = none)
    (hagree : ∀ name ∈ m.wrapper.algorithm.memberNames,
      m'.header.get? name = m.header.get? name) (keys : List SecretKey) :
    ReadsSealed ⟨i.options, i.known, keys⟩ m'.parts m'.reading := by
  obtain ⟨-, -, hmethod, -⟩ := Issuer.wrapper_eq_ok hm.wrapper
  have hwrapper : m'.wrapper = m.wrapper := Except.ok.inj (hm'.wrapper.symm.trans hm.wrapper)
  have hcompressor : m'.zip = m.zip := Except.ok.inj (hm'.zip.symm.trans hm.zip)
  rw [Algorithm.memberNames, hmethod] at hagree
  have hzip : m'.header.zip?.mapM (Issuer.compressor i.options i.known) = .ok m'.zip := by
    rw [hcompressor, ← hm.compressor_header rfl, Header.zip?, Header.zip?, Header.text?,
      Header.text?, hagree "zip" (by simp)]
  have hparameters : m'.header.parameters m'.wrapper.method = .ok m'.wrapped.parameters := by
    rw [hwrapper, hwrapped, ← hm.parameters_header hcount fun _ _ => rfl]
    exact Header.parameters_congr fun name hname => hagree name (List.mem_append_right _ hname)
  exact hm'.readsSealed_of_header hcount hextra hcrit hzip hparameters keys

/-- What the holder of the key that a token was made for opens shows that the key is private and
that everything about the making was in order. -/
theorem orderly_of_settled (hm : i.Makes text c none Header.empty m)
    {k' : SecretKey} {found : Bytes} {e e' : Entropy}
    (hopen : opening m.reading.parcel none false [m.wrapper.key] e = (.ok (k', found), e')) :
    (∀ k, m.wrapper.key.material = some k → k.isPrivate = true) ∧
      (∀ cipher, m.enc.method = .contentEncryption cipher → cipher.CutsTag) ∧
      ∀ hash bits, m.wrapper.method = .password hash bits → 1 ≤ i.options.iterations := by
  obtain ⟨-, -, hmethod, -, hlimits, -⟩ := Issuer.wrapper_eq_ok hm.wrapper
  obtain ⟨-, w, contentKey, hbind, hunwrap, htext⟩ := opening_single hopen
  obtain ⟨method, hmethod', hsuits, rfl⟩ := KeyWrapper.bind_eq_ok.1 hbind
  obtain rfl : method = m.wrapper.method := by
    rw [SealedMaking.reading, hmethod] at hmethod'
    cases hmethod'
    rfl
  obtain ⟨e₀, e₁, hwraps⟩ := hm.wraps
  obtain ⟨n, material, -, -, hwrapping⟩ := KeyWrapper.wrapping_of_wrapNew hwraps
  obtain ⟨e₂, e₃, hseals⟩ := hm.seals
  refine ⟨fun k hk => ?_, Parcel.cutsTag_of_contentUnder hseals htext,
    fun hash bits hpassword => ?_⟩
  · exact KeyWrapper.isPrivate_of_unwrap (SecretKey.read_eq_ok.2 hk) hunwrap
  · have hcount := KeyWrapper.iterations_of_unwrap hpassword rfl hwrapping hunwrap
    rw [hlimits] at hcount
    exact hcount

theorem opened_of_decode {token : String} {t : DecodedToken} {e : Entropy}
    (hm : i.Makes text c none Header.empty m) (hcount : i.options.iterations < 2 ^ 32)
    (hsplit : splitDots token =
      [m.parts.header, m.parts.encryptedKey, m.parts.iv, m.parts.ciphertext, m.parts.tag])
    (hdecode : (decode ⟨i.options, i.known, [m.wrapper.key]⟩ token e).1 = .ok t) :
    ∃ found payload e', contenders m.wrapper.algorithm m.header [m.wrapper.key] = [m.wrapper.key] ∧
      opening m.reading.parcel none false [m.wrapper.key] e = (.ok (m.wrapper.key, found), e') ∧
      expanded m.zip found = .ok payload ∧ t = ⟨m.header, payload, m.wrapper.key.id, none⟩ := by
  have hlen := length_of_decode hdecode
  have hread := readSealed_eq_ok.2
    (hm.readsSealed hcount Header.isPlain_empty (fun _ _ => rfl) [m.wrapper.key])
  rw [decode_sealed hsplit hlen] at hdecode
  obtain ⟨outer, e₁, houter, hunnest⟩ := Draw.bind_eq_ok.1 (Prod.ext hdecode rfl)
  obtain ⟨c₀, hc₀, hsettle⟩ := Draw.ofExcept_bind_eq_ok.1 houter
  obtain rfl : m.reading = c₀ := Except.ok.inj (hread.symm.trans hc₀)
  obtain ⟨k', found, payload, e₂, hcont, hopen, hpayload, rfl⟩ := settleSealed_single rfl hsettle
  have hplain : m.header.isNested = false := isNested_of_makes hm fun _ _ => rfl
  rw [unnest_of_plain _ hplain] at hunnest
  cases hunnest
  have hmem : k' ∈ contenders m.wrapper.algorithm m.header [m.wrapper.key] := by
    change k' ∈ contenders m.reading.parcel.algorithm m.reading.header [m.wrapper.key]
    rw [hcont]
    exact List.mem_cons_self
  have hsame : k' = m.wrapper.key := by
    by_cases ha : m.wrapper.algorithm.keyType = .none
    · -- An algorithm without keys has the empty key, which unwraps nothing.
      obtain rfl : k' = SecretKey.empty := by simpa [contenders, ha] using hmem
      obtain ⟨-, w, contentKey, hbind, hunwrap, -⟩ := opening_single hopen
      obtain ⟨method, -, -, rfl⟩ := KeyWrapper.bind_eq_ok.1 hbind
      have hprivate := KeyWrapper.isPrivate_of_unwrap (m := .none) rfl hunwrap
      cases hprivate
    · simp only [contenders, ha, if_false] at hmem
      exact List.mem_singleton.1 (List.mem_filter.1 hmem).1
  subst hsame
  exact ⟨found, payload, e₂, hcont, hopen, hpayload, rfl⟩

theorem decode_of_reads {token : String} {keys : List SecretKey} {zip : Option Compressor}
    {found payload : Bytes} {e e₁ : Entropy} (hm : i.Makes text c none extra m)
    (hsplit : splitDots token =
      [m.parts.header, m.parts.encryptedKey, m.parts.iv, m.parts.ciphertext, m.parts.tag])
    (hlen : token.utf8ByteSize ≤ i.options.maxTokenLength) (hcty : extra.get? "cty" = none)
    (hreads : ReadsSealed ⟨i.options, i.known, keys⟩ m.parts { m.reading with zip := zip })
    (hcont : contenders m.wrapper.algorithm m.header keys = [m.wrapper.key])
    (hopen : opening m.reading.parcel none false [m.wrapper.key] e =
      (.ok (m.wrapper.key, found), e₁))
    (hpayload : expanded zip found = .ok payload) :
    (decode ⟨i.options, i.known, keys⟩ token e).1 =
      .ok ⟨m.header, payload, m.wrapper.key.id, none⟩ := by
  have hkeys : keysFor ⟨i.options, i.known, keys⟩ m.wrapper.algorithm m.wrapper.algorithm.code
      m.header = .ok [m.wrapper.key] := by
    rw [keysFor_eq, hcont]
    rfl
  have hsettle := settleSealed_of_opening (c := { m.reading with zip := zip }) hkeys hopen hpayload
  have hplain : m.header.isNested = false := by
    have hget : m.header.get? "cty" = none := hm.get?_header (by simp) fun _ => hcty
    rw [Header.isNested, Header.cty?, Header.text?, hget]
    rfl
  rw [decode_of_settled hsplit hlen (readSealed_eq_ok.2 hreads) hsettle, unnest_of_plain _ hplain]
  rfl

theorem decode_sealed_of_extra {token' : String} {found payload : Bytes} {e e₁ : Entropy}
    (hm : i.Makes text c none Header.empty m) (hm' : i.Makes text c none extra m')
    (hwrapped : m'.wrapped = m.wrapped) (hcount : i.options.iterations < 2 ^ 32)
    (hextra : extra.IsPlain) (hcrit : extra.get? "crit" = none) (hcty : extra.get? "cty" = none)
    (hrecovers : ∀ k, m.wrapper.key.material = some k → k.Recovers)
    (hsplit' : splitDots token' =
      [m'.parts.header, m'.parts.encryptedKey, m'.parts.iv, m'.parts.ciphertext, m'.parts.tag])
    (hlen' : token'.utf8ByteSize ≤ i.options.maxTokenLength)
    (hagree : ∀ name ∈ m.wrapper.algorithm.memberNames,
      m'.header.get? name = m.header.get? name)
    (hcont : contenders m.wrapper.algorithm m.header [m.wrapper.key] = [m.wrapper.key])
    (hopen : opening m.reading.parcel none false [m.wrapper.key] e =
      (.ok (m.wrapper.key, found), e₁))
    (hpayload : expanded m.zip found = .ok payload) (e' : Entropy) :
    (decode ⟨i.options, i.known, [m.wrapper.key]⟩ token' e').1 =
      .ok ⟨m'.header, payload, m.wrapper.key.id, none⟩ := by
  obtain ⟨hprivate, hcuts, hiterations⟩ := orderly_of_settled hm hopen
  have hwrapper : m'.wrapper = m.wrapper := Except.ok.inj (hm'.wrapper.symm.trans hm.wrapper)
  have henc : m'.enc = m.enc := Except.ok.inj (hm'.enc.symm.trans hm.enc)
  have hzip : m'.zip = m.zip := Except.ok.inj (hm'.zip.symm.trans hm.zip)
  have hkey : ∀ k, m.wrapper.key.material = some k → k.isPrivate = true ∧ k.Recovers :=
    fun k hk => ⟨hprivate k hk, hrecovers k hk⟩
  -- Both tokens have the same content, so the key finds the same in both.
  have hfound : found = i.compressed m.zip text := by
    rw [opening_of_makes hm hcuts hiterations hkey] at hopen
    cases hopen
    rfl
  have hopen' : opening m'.reading.parcel none false [m.wrapper.key] e' =
      (.ok (m.wrapper.key, found), e') := by
    rw [hfound, ← hwrapper, ← hzip]
    rw [← henc] at hcuts
    rw [← hwrapper] at hiterations hkey
    exact opening_of_makes hm' hcuts hiterations hkey none false [] e'
  have hcont' : contenders m'.wrapper.algorithm m'.header [m.wrapper.key] = [m.wrapper.key] := by
    obtain ⟨-, -, hmethod, -⟩ := Issuer.wrapper_eq_ok hm.wrapper
    have hkid := hagree "kid" (by simp [Algorithm.memberNames, hmethod])
    rw [hwrapper, contenders_congr fun _ => hkid, hcont]
  rw [← hzip] at hpayload
  rw [← hwrapper] at hcont' hopen' ⊢
  exact decode_of_reads hm' hsplit' hlen' hcty
    (readsSealed_of_extra hm hm' hwrapped hcount hextra hcrit hagree [m'.wrapper.key]) hcont' hopen'
    hpayload

end Makes

/-! ### A shared key -/

theorem decode_shared_of_header {extra : Header} {text payload : Bytes} {zip : Option Compressor}
    (hextra : extra.IsPlain) (hcrit : extra.get? "crit" = none) (hcty : extra.get? "cty" = none)
    (hlen : (sharedToken (sharedHeader none extra) text e).utf8ByteSize ≤
      plainIssuer.options.maxTokenLength)
    (hzip : (sharedHeader none extra).zip?.mapM
      (Issuer.compressor plainIssuer.options plainIssuer.known) = .ok zip)
    (hpayload : expanded zip text = .ok payload) (e' : Entropy) :
    (decode ⟨plainIssuer.options, plainIssuer.known, [sharedKey]⟩
      (sharedToken (sharedHeader none extra) text e) e').1 =
        .ok ⟨sharedHeader none extra, payload, some "e", none⟩ := by
  let m := sharedMaking none extra text e
  have hm : plainIssuer.Makes text sharedCredentials none extra m := makes_shared text none extra e
  have hsplit : splitDots (sharedToken (sharedHeader none extra) text e) =
      [m.parts.header, m.parts.encryptedKey, m.parts.iv, m.parts.ciphertext, m.parts.tag] :=
    m.splitDots_parts
  have hreads := hm.readsSealed_of_header (by decide) hextra hcrit hzip rfl [sharedKey]
  have hkid : m.header.get? "kid" = some (.string "e") :=
    (Header.get?_finishHeader _ _ _ _).trans rfl
  have hmem : sharedKey ∈ contenders Algorithm.direct m.header [sharedKey] :=
    mem_contenders ⟨rfl, rfl, rfl⟩ (by simp [Algorithm.direct]) (fun _ => by simp) hkid
  have hopen := opening_of_makes hm (cutsTag_of_makes hm rfl)
    (fun _ _ hpassword => by cases hpassword) (fun k hk => recovers_shared hm.wrapper hk)
    none false [] e'
  exact decode_of_reads hm hsplit hlen hcty hreads (contenders_single hmem) hopen hpayload

end Recipient

/-! ### All tokens -/

/-- What credentials of one kind come down to. Any key will do for an algorithm that takes none. -/
inductive Issuer.Resolves (i : Issuer) : Credentials → Algorithm → SecretKey → Prop
  | signing {c : SigningCredentials} {s : Signer} {k : SecretKey} (hs : i.signer c = .ok s)
      (hkey : s.algorithm.keyType ≠ .none → k = s.key) : Resolves i ⟨some c, none⟩ s.algorithm k
  | encrypting {c : EncryptingCredentials} {w : KeyWrapper} (hw : i.wrapper c = .ok w) :
      Resolves i ⟨none, some c⟩ w.algorithm w.key

namespace Recipient

/-- A token that its key opens is opened by it to the same payload when members are added to the
header, if none of them has a name that the recipient goes by and the header does not have without
them. The members that the recipient goes by are then those that the issuer put there. -/
theorem decode_of_extra {i : Issuer} {payload : Bytes} {c : Credentials} {a : Algorithm}
    {k : SecretKey} {extra : Header} {token token' : String} {t : DecodedToken}
    {e e₁ e₂ e₃ : Entropy} (hc : i.Resolves c a k)
    (htoken : i.encode payload c Header.empty e = (.ok token, e₁))
    (htoken' : i.encode payload c extra e = (.ok token', e₂))
    (hlen : token'.utf8ByteSize ≤ i.options.maxTokenLength)
    (hcount : i.options.iterations < 2 ^ 32) (hextra : extra.IsPlain)
    (hcrit : extra.get? "crit" = none) (hcty : extra.get? "cty" = none)
    (hmaterial : ∀ m, k.material = some m → m.VerifiesOwn ∧ m.Recovers)
    (hdecode : (decode ⟨i.options, i.known, [k]⟩ token e₃).1 = .ok t)
    (hsilent : ∀ name ∈ a.memberNames, t.header.get? name = none → extra.get? name = none)
    (e' : Entropy) :
    ∃ t', (decode ⟨i.options, i.known, [k]⟩ token' e').1 = .ok t' ∧ t'.payload = t.payload ∧
      t'.keyId = t.keyId ∧ ∀ name ∈ a.memberNames, t'.header.get? name = t.header.get? name := by
  -- Whatever the issuer has to put there, the two headers are finished from the same members.
  have hsame : ∀ (mandated : Header),
      t.header = Issuer.finishHeader i.options mandated Header.empty → ∀ name ∈ a.memberNames,
        (Issuer.finishHeader i.options mandated extra).get? name = t.header.get? name := by
    intro mandated hheader name hname
    have htyp : name ≠ "typ" := fun heq => a.typ_notMem_memberNames (heq ▸ hname)
    rw [hheader] at hsilent ⊢
    exact Header.get?_finishHeader_of_silent htyp (hsilent name hname)
  cases hc with
  | @signing c s k hs hkey =>
    obtain ⟨-, -, hbind, -⟩ := Issuer.signer_eq_ok hs
    obtain ⟨method, hmethod, -⟩ := Signer.bind_eq_ok.1 hbind
    have hkid : s.algorithm.keyType ≠ .none → "kid" ∈ s.algorithm.memberNames := fun ha => by
      simp [Algorithm.memberNames, hmethod, ha]
    obtain ⟨rfl, hdecode'⟩ := decode_signed_of_extra hs hkey htoken htoken' hlen hextra hcrit
      (fun m hm => (hmaterial m hm).1) hdecode (fun ha => hsilent "kid" (hkid ha)) e'
    exact ⟨_, hdecode', rfl, rfl, hsame _ rfl⟩
  | encrypting hw =>
    obtain ⟨m, hm, hsplit, e₄, hwrap⟩ := Issuer.encrypt_wrapped htoken
    obtain ⟨m', hm', hsplit', e₅, hwrap'⟩ := Issuer.encrypt_wrapped htoken'
    obtain rfl := Except.ok.inj (hw.symm.trans hm.wrapper)
    have hwrapper : m'.wrapper = m.wrapper := Except.ok.inj (hm'.wrapper.symm.trans hm.wrapper)
    have henc : m'.enc = m.enc := Except.ok.inj (hm'.enc.symm.trans hm.enc)
    have hzip : m'.zip = m.zip := Except.ok.inj (hm'.zip.symm.trans hm.zip)
    have hwrapped : m'.wrapped = m.wrapped := by
      rw [hwrapper, henc, hwrap] at hwrap'
      exact (Except.ok.inj (congrArg Prod.fst hwrap')).symm
    obtain ⟨found, payload', e₆, hcont, hopen, hpayload, rfl⟩ :=
      opened_of_decode hm hcount hsplit hdecode
    have hagree : ∀ name ∈ m.wrapper.algorithm.memberNames,
        m'.header.get? name = m.header.get? name := by
      rw [hm'.header, hwrapper, henc, hzip, hwrapped]
      exact hsame _ hm.header
    exact ⟨_, decode_sealed_of_extra hm hm' hwrapped hcount hextra hcrit hcty
      (fun k hk => (hmaterial k hk).2) hsplit' hlen hagree hcont hopen hpayload e', rfl, rfl,
      hagree⟩

theorem decode_of_extra_shared :
    let text := Bytes.ofText "hi"
    let extra := (Header.empty.insert "kid" (.string "x")).insert "apu" (.string "A")
    let c : Credentials := ⟨none, some sharedCredentials⟩
    let r : Recipient := ⟨plainIssuer.options, plainIssuer.known, [sharedKey]⟩
    let e := Entropy.scrambled 0
    let token := sharedToken (sharedHeader none Header.empty) text e
    let token' := sharedToken (sharedHeader none extra) text e
    plainIssuer.Resolves c Algorithm.direct sharedKey ∧
      plainIssuer.encode text c Header.empty e = (.ok token, e.advance 12) ∧
      plainIssuer.encode text c extra e = (.ok token', e.advance 12) ∧
      token'.utf8ByteSize ≤ plainIssuer.options.maxTokenLength ∧ extra.IsPlain ∧
      ∃ t t', (r.decode token e).1 = .ok t ∧ t.payload = text ∧
        (r.decode token' (Entropy.scrambled 1)).1 = .ok t' ∧ t'.payload = text ∧
        t'.header.get? "kid" = some (.string "e") := by
  intro text extra c r e token token'
  have hextra : extra.IsPlain := (Header.isPlain_empty.insertString _ _).insertString _ _
  have hrender : (sharedHeader none extra).render =
      "\x7b\"alg\":\"dir\",\"enc\":\"A128GCM\",\"kid\":\"e\",\"apu\":\"A\"\x7d" := by
    cbv
  have hlen : token'.utf8ByteSize ≤ plainIssuer.options.maxTokenLength :=
    length_shared (by rw [hrender]; decide) (by decide) e
  have hc : plainIssuer.Resolves c Algorithm.direct sharedKey := .encrypting wrapper_shared
  have hdecode : (r.decode token e).1 =
      .ok ⟨sharedHeader none Header.empty, text, some "e", none⟩ :=
    decode_shared_of_header Header.isPlain_empty rfl rfl (length_bare (by decide) e) rfl rfl e
  obtain ⟨t', ht', hpayload, -, hsame⟩ := decode_of_extra hc (encrypt_shared text none _ e)
    (encrypt_shared text none extra e) hlen (by decide) hextra rfl rfl
    (fun m hm => by
      cases hm
      exact ⟨KeyMaterial.verifiesOwn_symmetric _, KeyMaterial.recovers_symmetric _⟩)
    hdecode (by decide) (Entropy.scrambled 1)
  exact ⟨hc, encrypt_shared text none _ e, encrypt_shared text none extra e, hlen, hextra, _, t',
    hdecode, rfl, ht', hpayload, (hsame "kid" (by decide)).trans rfl⟩

/-- Content that happens to be a compressed stream is taken for one if an added member names the
compressor: the issuer leaves `zip` out when it does not compress. -/
theorem decode_extra_zip :
    let text : Bytes := [0x4b, 0x04, 0x00]
    let extra := Header.empty.insert "zip" (.string "DEF")
    let c : Credentials := ⟨none, some sharedCredentials⟩
    let r : Recipient := ⟨plainIssuer.options, plainIssuer.known, [sharedKey]⟩
    let e := Entropy.scrambled 0
    let token := sharedToken (sharedHeader none Header.empty) text e
    let token' := sharedToken (sharedHeader none extra) text e
    plainIssuer.encode text c Header.empty e = (.ok token, e.advance 12) ∧
      plainIssuer.encode text c extra e = (.ok token', e.advance 12) ∧
      token'.utf8ByteSize ≤ plainIssuer.options.maxTokenLength ∧ extra.IsPlain ∧
      ∃ t t', (r.decode token e).1 = .ok t ∧ t.payload = text ∧
        (r.decode token' e).1 = .ok t' ∧ t'.payload = [0x61] := by
  intro text extra c r e token token'
  have hextra : extra.IsPlain := Header.isPlain_empty.insertString _ _
  have hrender : (sharedHeader none extra).render =
      "\x7b\"alg\":\"dir\",\"enc\":\"A128GCM\",\"kid\":\"e\",\"zip\":\"DEF\"\x7d" := by
    cbv
  have hlen : token'.utf8ByteSize ≤ plainIssuer.options.maxTokenLength :=
    length_shared (by rw [hrender]; decide) (by decide) e
  obtain ⟨z, hz, hmethod, hlimit⟩ : ∃ z, Issuer.compressor plainIssuer.options plainIssuer.known
      "DEF" = .ok z ∧ z.method = .deflate ∧ z.limit = Compressor.defaultLimit := ⟨_, rfl, rfl, rfl⟩
  have hzip : (sharedHeader none extra).zip?.mapM
      (Issuer.compressor plainIssuer.options plainIssuer.known) = .ok (some z) := by
    rw [show (sharedHeader none extra).zip? = some "DEF" from rfl]
    simp [hz]
  have hinflate : Deflate.inflate? [0x4b, 0x04, 0x00] = some [0x61] := by decide +kernel
  have hexpanded : expanded (some z) text = .ok [0x61] := by
    have hdecompress : z.decompress text = .ok [0x61] := by
      rw [Compressor.decompress, hmethod]
      exact Compressor.inflate_of_finished
        (fun _ => Deflate.inflateWithin_of_reads (Deflate.inflates_of_inflate? hinflate))
        (by rw [hlimit]; decide)
    simpa [expanded] using hdecompress
  exact ⟨encrypt_shared text none _ e, encrypt_shared text none extra e, hlen, hextra, _, _,
    decode_shared_of_header Header.isPlain_empty rfl rfl (length_bare (by decide) e) rfl rfl e, rfl,
    decode_shared_of_header hextra rfl rfl hlen hzip hexpanded e, rfl⟩

end Recipient

end TokenSeal
