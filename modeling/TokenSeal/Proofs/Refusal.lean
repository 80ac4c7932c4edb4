import TokenSeal.Proofs.KeySearch

/-! A token that no key opens is refused in the same way whatever its bytes are: of the segments
after the header, nothing but that they decode has a part in the refusal. -/

namespace TokenSeal

/-- What the four segments after the header stand for. -/
structure SealedParts.Decodes (p : SealedParts) (encryptedKey : Bytes) (content : Sealed) :
    Prop where
  encryptedKey : Base64Url.decode p.encryptedKey = .ok encryptedKey
  iv : Base64Url.decode p.iv = .ok content.iv
  ciphertext : Base64Url.decode p.ciphertext = .ok content.ciphertext
  tag : Base64Url.decode p.tag = .ok content.tag

def SealedReading.withBody (c : SealedReading) (encryptedKey : Bytes) (content : Sealed) :
    SealedReading :=
  { c with parcel := { c.parcel with encryptedKey := encryptedKey, content := content } }

theorem Options.screenSealed_of_header (o : Options) {p p' : SealedParts}
    (hheader : p'.header = p.header) :
    o.screenSealed p' = (o.screenSealed p).map fun t => { t with parts := p' } := by
  rw [screenSealed, screenSealed, hheader]
  cases Header.ofSegment p.header with
  | error err => rfl
  | ok h =>
    cases hcrit : o.checkCritical h with
    | error err => simp [hcrit]
    | ok _ =>
      cases halg : requireText "alg" h.alg? with
      | error err => simp [hcrit, halg]
      | ok alg => cases henc : requireText "enc" h.enc? <;> simp [hcrit, halg, henc]

namespace Recipient

section Body

variable {p p' : SealedParts} {encryptedKey encryptedKey' : Bytes} {content content' : Sealed}

theorem parcelOf_of_header (r : Recipient) {t : ScreenedSealed} (ht : t.parts = p)
    (hp : p.Decodes encryptedKey content) (hp' : p'.Decodes encryptedKey' content')
    (hheader : p'.header = p.header) :
    r.parcelOf { t with parts := p' } = (r.parcelOf t).map fun q =>
      ({ q.1 with encryptedKey := encryptedKey', content := content' }, q.2) := by
  subst ht
  rw [parcelOf, parcelOf]
  cases ha : r.known.find .keyManagement t.alg with
  | error err => simp
  | ok a =>
    cases henc : r.known.find .contentEncryption t.enc with
    | error err => simp
    | ok enc =>
      cases hzip : t.header.zip?.mapM (Issuer.compressor r.options r.known) with
      | error err => simp
      | ok zip =>
        cases hm : managementOf a t.alg with
        | error err => simp [hm]
        | ok method =>
          cases hparams : t.header.parameters method with
          | error err => simp [hm, hparams]
          | ok parameters =>
            simp [hm, hparams, hheader, bytesOf, hp.encryptedKey, hp.iv, hp.ciphertext, hp.tag,
              hp'.encryptedKey, hp'.iv, hp'.ciphertext, hp'.tag]

/-- What is read of a token before any key is tried is that of its header, as long as the rest
decodes. -/
theorem readSealed_of_header (r : Recipient) (hp : p.Decodes encryptedKey content)
    (hp' : p'.Decodes encryptedKey' content') (hheader : p'.header = p.header) :
    r.readSealed p' = (r.readSealed p).map (·.withBody encryptedKey' content') := by
  rw [readSealed, readSealed, r.options.screenSealed_of_header hheader]
  cases ht : r.options.screenSealed p with
  | error err => rfl
  | ok t =>
    obtain ⟨hparts, -⟩ := Options.screenSealed_eq_ok.1 ht
    have hparcel := r.parcelOf_of_header hparts hp hp' hheader
    rw [map_ok, ok_bind, ok_bind, hparcel]
    cases r.parcelOf t <;> rfl

end Body

section Closed

variable {o : Options} {keys : List SecretKey}

/-- A token that no key opens is refused for its header or as its reading has it. -/
theorem decode_of_not_opens {token : String} {p : SealedParts} {e : Entropy}
    (hsplit : splitDots token = [p.header, p.encryptedKey, p.iv, p.ciphertext, p.tag])
    (hlen : token.utf8ByteSize ≤ o.maxTokenLength)
    (hclosed : ¬ Opens ⟨o, .ok Algorithm.builtin, keys⟩ token e) :
    (decode ⟨o, .ok Algorithm.builtin, keys⟩ token e).1 =
      match readSealed ⟨o, .ok Algorithm.builtin, keys⟩ p with
      | .error err => .error err
      | .ok c => .error (c.rejection (contenders c.parcel.algorithm c.header keys)) := by
  rw [decode_sealed hsplit hlen]
  cases hread : readSealed ⟨o, .ok Algorithm.builtin, keys⟩ p with
  | error err => rw [Draw.bind_error (Draw.ofExcept_error_bind _ _ e)]
  | ok c =>
    obtain ⟨method, hstandard⟩ := (readSealed_eq_ok.1 hread).standard
    have hnone : ∀ found, (opening c.parcel none false
        (contenders c.parcel.algorithm c.header keys) e).1 ≠ .ok found := by
      intro found hfound
      refine hclosed ⟨p, c, found, ?_, hread, hfound⟩
      simp [CompactToken.parse, hsplit]
    have hsettle := settleSealed_of_none (r := ⟨o, .ok Algorithm.builtin, keys⟩) hstandard hnone
    rw [Draw.bind_error ((Draw.ofExcept_ok_bind _ _ e).trans (Prod.ext hsettle rfl))]

/-- Two tokens with the same header, neither of them opened by any key, are refused with the very
same error, whatever the bytes after the header are and whatever went wrong with them. If the
header is in order and a key of a legal size is there to try, it is that of a forgery. -/
theorem decode_refused_alike {token token' : String} {p p' : SealedParts}
    {encryptedKey encryptedKey' : Bytes} {content content' : Sealed} {e e' : Entropy}
    (hsplit : splitDots token = [p.header, p.encryptedKey, p.iv, p.ciphertext, p.tag])
    (hsplit' : splitDots token' = [p'.header, p'.encryptedKey, p'.iv, p'.ciphertext, p'.tag])
    (hlen : token.utf8ByteSize ≤ o.maxTokenLength) (hlen' : token'.utf8ByteSize ≤ o.maxTokenLength)
    (hheader : p'.header = p.header) (hbody : p.Decodes encryptedKey content)
    (hbody' : p'.Decodes encryptedKey' content')
    (hclosed : ¬ Opens ⟨o, .ok Algorithm.builtin, keys⟩ token e)
    (hclosed' : ¬ Opens ⟨o, .ok Algorithm.builtin, keys⟩ token' e') :
    let r : Recipient := ⟨o, .ok Algorithm.builtin, keys⟩
    ∃ err, (r.decode token e).1 = .error err ∧ (r.decode token' e').1 = .error err ∧
      ∀ c, r.ReadsSealed p c → c.parcel.formFault? = none →
        (∃ k ∈ contenders c.parcel.algorithm c.header keys,
          c.parcel.algorithm.isLegalSize k.profile.bits = true) → err = .integrity := by
  intro r
  have hfirst := decode_of_not_opens hsplit hlen hclosed
  have hsecond := decode_of_not_opens hsplit' hlen' hclosed'
  rw [readSealed_of_header _ hbody hbody' hheader] at hsecond
  cases hread : r.readSealed p with
  | error err =>
    rw [hread] at hfirst hsecond
    refine ⟨err, hfirst, hsecond, fun c hc => ?_⟩
    rw [readSealed_eq_ok.2 hc] at hread
    cases hread
  | ok c =>
    rw [hread] at hfirst hsecond
    refine ⟨_, hfirst, hsecond, fun c' hc' hform hlegal => ?_⟩
    obtain rfl : c = c' := Except.ok.inj (hread.symm.trans (readSealed_eq_ok.2 hc'))
    obtain ⟨k, hk, hsize⟩ := hlegal
    have hany : (contenders c.parcel.algorithm c.header keys).any c.parcel.isLegal = true :=
      List.any_eq_true.2 ⟨k, hk, hsize⟩
    have hne : ¬ (contenders c.parcel.algorithm c.header keys).isEmpty = true := by
      rw [List.isEmpty_iff]
      exact List.ne_nil_of_mem hk
    simp [SealedReading.rejection, hne, Parcel.rejection, hform, hany, verdict]

end Closed

/-! ### Two forgeries -/

def bareHeader : Header :=
  (Header.empty.insert "alg" (.string "dir")).insert "enc" (.string "A128GCM")

def bareReading (encryptedKey : Bytes) : SealedReading :=
  ⟨bareHeader, "dir", "A128GCM", ⟨Algorithm.direct, Algorithm.cipher "A128GCM" (.gcm 128),
    plainIssuer.options.passwordLimits, .none, encryptedKey, ⟨[], [], []⟩,
    Bytes.ofText "eyJhbGciOiJkaXIiLCJlbmMiOiJBMTI4R0NNIn0"⟩, none⟩

theorem readsSealed_bare {segment : String} {encryptedKey : Bytes}
    (hkey : Base64Url.decode segment = .ok encryptedKey) :
    ReadsSealed ⟨plainIssuer.options, .ok Algorithm.builtin, [sharedKey]⟩
      ⟨"eyJhbGciOiJkaXIiLCJlbmMiOiJBMTI4R0NNIn0", segment, "", "", ""⟩ (bareReading encryptedKey) :=
  { header := ⟨_, "\x7b\"alg\":\"dir\",\"enc\":\"A128GCM\"\x7d",
      [("alg", .string "dir"), ("enc", .string "A128GCM")], by cbv, Bytes.toText?_ofText _, by cbv,
      rfl⟩
    critical := rfl
    alg := rfl
    enc := rfl
    knownAlg := rfl
    knownEnc := rfl
    zip := rfl
    limits := rfl
    parameters := ⟨.direct, rfl, rfl⟩
    encryptedKey := hkey
    iv := by cbv
    ciphertext := by cbv
    tag := by cbv
    aad := rfl }

/-- One is refused for the length of its initialization vector and the other for the key that it
carries where none belongs. -/
theorem decode_refused_alike_bare :
    let r : Recipient := ⟨plainIssuer.options, .ok Algorithm.builtin, [sharedKey]⟩
    let token := "eyJhbGciOiJkaXIiLCJlbmMiOiJBMTI4R0NNIn0...."
    let token' := "eyJhbGciOiJkaXIiLCJlbmMiOiJBMTI4R0NNIn0.AA..."
    token.utf8ByteSize ≤ r.options.maxTokenLength ∧ token'.utf8ByteSize ≤ r.options.maxTokenLength ∧
      ¬ Opens r token (Entropy.scrambled 0) ∧ ¬ Opens r token' (Entropy.scrambled 1) ∧
      (r.decode token (Entropy.scrambled 0)).1 = .error .integrity ∧
      (r.decode token' (Entropy.scrambled 1)).1 = .error .integrity := by
  intro r token token'
  let p : SealedParts := ⟨"eyJhbGciOiJkaXIiLCJlbmMiOiJBMTI4R0NNIn0", "", "", "", ""⟩
  let p' : SealedParts := { p with encryptedKey := "AA" }
  have hsplit : splitDots token = [p.header, p.encryptedKey, p.iv, p.ciphertext, p.tag] := by cbv
  have hsplit' : splitDots token' =
      [p'.header, p'.encryptedKey, p'.iv, p'.ciphertext, p'.tag] := by cbv
  have hreads : r.ReadsSealed p (bareReading []) := readsSealed_bare (by cbv)
  have hreads' : r.ReadsSealed p' (bareReading [0]) := readsSealed_bare (by cbv)
  have hclosed : ¬ Opens r token (Entropy.scrambled 0) := by
    rintro ⟨q, c, found, hparse, hread, hfound⟩
    simp only [CompactToken.parse, hsplit, Except.ok.injEq, CompactToken.encrypted.injEq] at hparse
    subst hparse
    obtain rfl := Except.ok.inj ((readSealed_eq_ok.2 hreads).symm.trans hread)
    cases hfound
  have hclosed' : ¬ Opens r token' (Entropy.scrambled 1) := by
    rintro ⟨q, c, found, hparse, hread, hfound⟩
    simp only [CompactToken.parse, hsplit', Except.ok.injEq, CompactToken.encrypted.injEq] at hparse
    subst hparse
    obtain rfl := Except.ok.inj ((readSealed_eq_ok.2 hreads').symm.trans hread)
    cases hfound
  have hlen : token.utf8ByteSize ≤ r.options.maxTokenLength := by decide
  have hlen' : token'.utf8ByteSize ≤ r.options.maxTokenLength := by decide
  obtain ⟨err, herr, herr', hintegrity⟩ := decode_refused_alike hsplit hsplit' hlen hlen' rfl
    ⟨hreads.encryptedKey, hreads.iv, hreads.ciphertext, hreads.tag⟩
    ⟨hreads'.encryptedKey, hreads'.iv, hreads'.ciphertext, hreads'.tag⟩ hclosed hclosed'
  have hcontenders : contenders Algorithm.direct bareHeader r.keys = [sharedKey] := rfl
  have hcontender : sharedKey ∈ contenders Algorithm.direct bareHeader r.keys := by
    simp [hcontenders]
  obtain rfl : err = .integrity := hintegrity _ hreads rfl ⟨sharedKey, hcontender, rfl⟩
  exact ⟨hlen, hlen', hclosed, hclosed', herr, herr'⟩

end Recipient

end TokenSeal
