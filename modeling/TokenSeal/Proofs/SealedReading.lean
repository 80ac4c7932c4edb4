import TokenSeal.Proofs.SignedAcceptance

/-! Reading encrypted tokens in parts: what does not look at keys, what the keys decide, and what is
done about a token inside. -/

namespace TokenSeal

/-- An encrypted token apart from its keys. -/
structure SealedReading where
  header : Header
  alg : String
  enc : String
  parcel : Recipient.Parcel
  zip : Option Compressor

theorem Options.screenSealed_eq_ok {o : Options} {p : SealedParts} {t : ScreenedSealed} :
    o.screenSealed p = .ok t ↔
      t.parts = p ∧ t.header.SpelledBy p.header ∧ o.checkCritical t.header = .ok () ∧
        t.header.get? "alg" = some (.string t.alg) ∧
        t.header.get? "enc" = some (.string t.enc) := by
  constructor
  · intro h
    obtain ⟨hd, hh, h⟩ := bind_eq_ok.1 h
    obtain ⟨_, hc, h⟩ := bind_eq_ok.1 h
    obtain ⟨alg, ha, h⟩ := bind_eq_ok.1 h
    obtain ⟨enc, he, h⟩ := bind_eq_ok.1 h
    rw [requireText_eq_ok] at ha he
    cases h
    exact ⟨rfl, Header.ofSegment_eq_ok.1 hh, hc, Header.text?_eq_some.1 ha,
      Header.text?_eq_some.1 he⟩
  · rintro ⟨rfl, hh, hc, ha, he⟩
    simp [screenSealed, Header.ofSegment_eq_ok.2 hh, hc, Header.alg?, Header.enc?,
      Header.text?_eq_some.2 ha, Header.text?_eq_some.2 he, requireText]

namespace Recipient

/-- Every check of an encrypted token that comes before the keys passes. -/
structure ReadsSealed (r : Recipient) (p : SealedParts) (c : SealedReading) : Prop where
  header : c.header.SpelledBy p.header
  critical : r.options.checkCritical c.header = .ok ()
  alg : c.header.get? "alg" = some (.string c.alg)
  enc : c.header.get? "enc" = some (.string c.enc)
  knownAlg : r.known.find .keyManagement c.alg = .ok c.parcel.algorithm
  knownEnc : r.known.find .contentEncryption c.enc = .ok c.parcel.enc
  zip : c.header.zip?.mapM (Issuer.compressor r.options r.known) = .ok c.zip
  limits : c.parcel.limits = r.options.passwordLimits
  parameters : ∃ m, c.parcel.algorithm.method = .keyManagement m ∧
    c.header.parameters m = .ok c.parcel.parameters
  encryptedKey : Base64Url.decode p.encryptedKey = .ok c.parcel.encryptedKey
  iv : Base64Url.decode p.iv = .ok c.parcel.content.iv
  ciphertext : Base64Url.decode p.ciphertext = .ok c.parcel.content.ciphertext
  tag : Base64Url.decode p.tag = .ok c.parcel.content.tag
  aad : c.parcel.aad = Bytes.ofText p.header

/-- The part of reading that does not look at keys. -/
def readSealed (r : Recipient) (p : SealedParts) : Except TokenError SealedReading := do
  let t ← r.options.screenSealed p
  let (parcel, zip) ← r.parcelOf t
  return ⟨t.header, t.alg, t.enc, parcel, zip⟩

/-- The part of reading that only the keys decide. -/
def settleSealed (r : Recipient) (c : SealedReading) : Draw TokenError DecodedToken := do
  let keys ← Draw.ofExcept (r.keysFor c.parcel.algorithm c.alg c.header)
  let (k, text) ← opening c.parcel none false keys
  let payload ← Draw.ofExcept ((expanded c.zip text).mapError .fault)
  return ⟨c.header, payload, k.id, none⟩

/-- Goes on with the token inside, if there is one and it is asked for. -/
def unnest (r : Recipient) (outer : DecodedToken) : Draw TokenError DecodedToken :=
  if r.options.unwrapNested ∧ outer.header.isNested then Draw.ofExcept (r.openNested outer)
  else return outer

theorem managementOf_eq_ok {a : Algorithm} {code : String} {m : KeyManagement} :
    managementOf a code = .ok m ↔ a.method = .keyManagement m := by
  unfold managementOf
  split
  · next m' hm => simp [hm]
  · next hm =>
    constructor
    · rintro ⟨⟩
    · exact fun h => absurd h (hm m)

theorem bytesOf_eq_ok {segment : String} {bytes : Bytes} :
    bytesOf segment = .ok bytes ↔ Base64Url.decode segment = .ok bytes :=
  mapError_eq_ok

theorem readSealed_eq_ok {r : Recipient} {p : SealedParts} {c : SealedReading} :
    r.readSealed p = .ok c ↔ r.ReadsSealed p c := by
  constructor
  · intro h
    obtain ⟨t, ht, h⟩ := bind_eq_ok.1 h
    obtain ⟨⟨parcel, zip⟩, hp, h⟩ := bind_eq_ok.1 h
    obtain ⟨a, ha, hp⟩ := bind_eq_ok.1 hp
    obtain ⟨enc, henc, hp⟩ := bind_eq_ok.1 hp
    obtain ⟨zip', hzip, hp⟩ := bind_eq_ok.1 hp
    obtain ⟨m, hm, hp⟩ := bind_eq_ok.1 hp
    obtain ⟨parameters, hparams, hp⟩ := bind_eq_ok.1 hp
    obtain ⟨encryptedKey, hkey, hp⟩ := bind_eq_ok.1 hp
    obtain ⟨iv, hiv, hp⟩ := bind_eq_ok.1 hp
    obtain ⟨ciphertext, htext, hp⟩ := bind_eq_ok.1 hp
    obtain ⟨tag, htag, hp⟩ := bind_eq_ok.1 hp
    obtain ⟨rfl, hh, hc, halg, hencCode⟩ := Options.screenSealed_eq_ok.1 ht
    cases hp
    cases h
    exact ⟨hh, hc, halg, hencCode, mapError_eq_ok.1 ha, mapError_eq_ok.1 henc,
      mapError_eq_ok.1 hzip, rfl, ⟨m, managementOf_eq_ok.1 (mapError_eq_ok.1 hm), hparams⟩,
      bytesOf_eq_ok.1 hkey, bytesOf_eq_ok.1 hiv, bytesOf_eq_ok.1 htext, bytesOf_eq_ok.1 htag, rfl⟩
  · intro h
    obtain ⟨m, hm, hparams⟩ := h.parameters
    have hscreen : r.options.screenSealed p = .ok ⟨p, c.header, c.alg, c.enc⟩ :=
      Options.screenSealed_eq_ok.2 ⟨rfl, h.header, h.critical, h.alg, h.enc⟩
    have hlimits := h.limits
    have haad := h.aad
    obtain ⟨header, alg, enc, ⟨a, encAlg, limits, parameters, key, ⟨text, iv, tag⟩, aad⟩, zip⟩ := c
    subst hlimits haad
    simp [readSealed, hscreen, parcelOf, h.knownAlg, h.knownEnc, h.zip,
      managementOf_eq_ok.2 hm, hparams, bytesOf_eq_ok.2 h.encryptedKey, bytesOf_eq_ok.2 h.iv,
      bytesOf_eq_ok.2 h.ciphertext, bytesOf_eq_ok.2 h.tag]

theorem openSealed_screenSealed (r : Recipient) (p : SealedParts) (e : Entropy) :
    (Draw.ofExcept (r.options.screenSealed p) >>= r.openSealed) e =
      (Draw.ofExcept (r.readSealed p) >>= r.settleSealed) e := by
  rw [Draw.bind_apply, Draw.bind_apply, Draw.ofExcept_apply, Draw.ofExcept_apply]
  cases ht : r.options.screenSealed p with
  | error err => simp [readSealed, ht]
  | ok t =>
    simp only [readSealed, ht, ok_bind]
    cases hp : r.parcelOf t with
    | error err => simp [openSealed, hp, Draw.bind_apply]
    | ok q => simp [openSealed, hp, Draw.bind_apply, settleSealed]

theorem settleSealed_of_opening {r : Recipient} {c : SealedReading} {keys : List SecretKey}
    {k : SecretKey} {text payload : Bytes} {e e' : Entropy}
    (hkeys : r.keysFor c.parcel.algorithm c.alg c.header = .ok keys)
    (hopening : opening c.parcel none false keys e = (.ok (k, text), e'))
    (hpayload : expanded c.zip text = .ok payload) :
    r.settleSealed c e = (.ok ⟨c.header, payload, k.id, none⟩, e') := by
  rw [settleSealed, hkeys, Draw.ofExcept_ok_bind, Draw.bind_ok hopening]
  simp only [hpayload, mapError_ok]
  rfl

theorem decode_sealed {r : Recipient} {token : String} {p : SealedParts}
    (hparts : splitDots token = [p.header, p.encryptedKey, p.iv, p.ciphertext, p.tag])
    (hlen : token.utf8ByteSize ≤ r.options.maxTokenLength) (e : Entropy) :
    r.decode token e =
      ((Draw.ofExcept (r.readSealed p) >>= r.settleSealed) >>= r.unnest) e := by
  have hparse : CompactToken.parse token = .ok (.encrypted p) := by
    simp [CompactToken.parse, hparts]
  have hscreen : r.options.screen token = (r.options.screenSealed p).map .encrypted := by
    cases ht : r.options.screenSealed p <;>
      simp [Options.screen, Nat.not_lt.2 hlen, hparse, ht]
  rw [Draw.bind_apply, ← openSealed_screenSealed, decode, hscreen]
  cases ht : r.options.screenSealed p with
  | error err => rfl
  | ok t =>
    rw [map_ok, Draw.ofExcept_ok_bind, Draw.ofExcept_ok_bind, openScreened, Draw.bind_apply]
    rfl

theorem decode_of_settled {r : Recipient} {token : String} {p : SealedParts} {c : SealedReading}
    {t : DecodedToken} {e e' : Entropy}
    (hparts : splitDots token = [p.header, p.encryptedKey, p.iv, p.ciphertext, p.tag])
    (hlen : token.utf8ByteSize ≤ r.options.maxTokenLength) (hread : r.readSealed p = .ok c)
    (hsettle : r.settleSealed c e = (.ok t, e')) : r.decode token e = r.unnest t e' := by
  have hboth : (Draw.ofExcept (r.readSealed p) >>= r.settleSealed) e = (.ok t, e') := by
    rw [hread, Draw.ofExcept_ok_bind, hsettle]
  rw [decode_sealed hparts hlen, Draw.bind_ok hboth]

theorem unnest_of_plain (r : Recipient) {outer : DecodedToken}
    (h : outer.header.isNested = false) : r.unnest outer = pure outer := by
  rw [unnest, if_neg (by simp [h])]

theorem decode_tooLong {r : Recipient} {token : String}
    (hlen : r.options.maxTokenLength < token.utf8ByteSize) (e : Entropy) :
    r.decode token e =
      (.error (.malformed (.tokenLength r.options.maxTokenLength)), e) := by
  have hscreen : r.options.screen token =
      .error (.malformed (.tokenLength r.options.maxTokenLength)) := by
    simp [Options.screen, hlen]
  rw [decode, hscreen]
  rfl

/-! ### One key of the search -/

section Opening

variable {p : Parcel} {bindingFault : Option Fault} {attempted : Bool} {k : SecretKey}
  {rest : List SecretKey} {w : KeyWrapper} {e e' : Entropy} {contentKey text : Bytes}
  {cause : Fault}

theorem opening_nil :
    opening p bindingFault attempted [] e = (.error (verdict bindingFault attempted), e) := rfl

theorem opening_unbound (hk : KeyWrapper.bind p.limits k p.algorithm = .error cause) :
    opening p bindingFault attempted (k :: rest) = opening p (some cause) attempted rest := by
  rw [opening, hk]

/-- A key that fails for another reason than the form of the token is passed over. -/
theorem opening_locked (hk : KeyWrapper.bind p.limits k p.algorithm = .ok w)
    (hw : w.unwrap p.encryptedKey p.parameters p.enc e = (.error cause, e'))
    (hcause : cause.kind ≠ .format) :
    opening p bindingFault attempted (k :: rest) e = opening p bindingFault true rest e' := by
  simp only [opening, hk]
  rw [hw]
  simp [hcause]

theorem opening_malformed (hk : KeyWrapper.bind p.limits k p.algorithm = .ok w)
    (hw : w.unwrap p.encryptedKey p.parameters p.enc e = (.error cause, e'))
    (hcause : cause.kind = .format) :
    opening p bindingFault attempted (k :: rest) e = (.error (.fault cause), e') := by
  simp only [opening, hk]
  rw [hw]
  simp [hcause]

theorem opening_forged (hk : KeyWrapper.bind p.limits k p.algorithm = .ok w)
    (hw : w.unwrap p.encryptedKey p.parameters p.enc e = (.ok contentKey, e'))
    (htext : p.contentUnder contentKey = .error cause) :
    opening p bindingFault attempted (k :: rest) e = opening p bindingFault true rest e' := by
  simp only [opening, hk]
  rw [hw]
  simp only [htext]

theorem opening_found (hk : KeyWrapper.bind p.limits k p.algorithm = .ok w)
    (hw : w.unwrap p.encryptedKey p.parameters p.enc e = (.ok contentKey, e'))
    (htext : p.contentUnder contentKey = .ok text) :
    opening p bindingFault attempted (k :: rest) e = (.ok (k, text), e') := by
  simp only [opening, hk]
  rw [hw]
  simp only [htext]

theorem opening_single {k' : SecretKey}
    (h : opening p bindingFault attempted [k] e = (.ok (k', text), e')) :
    k' = k ∧ ∃ w contentKey, KeyWrapper.bind p.limits k p.algorithm = .ok w ∧
      w.unwrap p.encryptedKey p.parameters p.enc e = (.ok contentKey, e') ∧
      p.contentUnder contentKey = .ok text := by
  cases hk : KeyWrapper.bind p.limits k p.algorithm with
  | error cause =>
    rw [opening_unbound hk, opening_nil] at h
    cases h
  | ok w =>
    rcases hw : w.unwrap p.encryptedKey p.parameters p.enc e with ⟨cause | contentKey, e₁⟩
    · by_cases hcause : cause.kind = .format
      · rw [opening_malformed hk hw hcause] at h
        cases h
      · rw [opening_locked hk hw hcause, opening_nil] at h
        cases h
    · cases htext : p.contentUnder contentKey with
      | error cause =>
        rw [opening_forged hk hw htext, opening_nil] at h
        cases h
      | ok found =>
        rw [opening_found hk hw htext] at h
        cases h
        exact ⟨rfl, w, contentKey, rfl, hw, htext⟩

end Opening

end Recipient

end TokenSeal
