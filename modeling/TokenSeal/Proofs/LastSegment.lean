import TokenSeal.Proofs.SealedReading
import TokenSeal.Proofs.Sealing
import TokenSeal.Proofs.SignedRoundTrip

/-! Nothing but the last segment of an accepted token fits where it stands, whatever the strength
of the ciphers: there is one text for the bytes, and the bytes are computed and compared. RSA key
transport is left out, since it gives a random key to what it cannot decrypt. -/

namespace TokenSeal

/-! ### Tags -/

namespace Sealer

/-- The one tag that goes with a ciphertext under a key. -/
def tagUnder (s : Sealer) (key : Bytes) (c : Sealed) (aad : Bytes) : Bytes :=
  match s.cipher with
  | .gcm _ => Gcm.tagOf (Aes.Schedule.ofKey key) c.iv aad c.ciphertext
  | .cbcHmac _ h => chainedTag h s.cipher.tagLength key aad c.iv c.ciphertext

theorem tag_of_openGcm? {key iv ciphertext tag aad text : Bytes}
    (h : openGcm? key iv ciphertext tag aad = some text) :
    tag = Gcm.tagOf (Aes.Schedule.ofKey key) iv aad ciphertext := by
  unfold openGcm? at h
  split at h
  · unfold Gcm.decrypt? at h
    split at h
    · assumption
    · cases h
  · cases h

theorem tag_of_openFor {s : Sealer} {c : Sealed} {aad written : Bytes} {room n : Nat}
    (h : s.openFor c aad room = .opened written n) :
    ∃ m key, s.key.read = .ok m ∧ m.effective = .symmetric key ∧ c.tag = s.tagUnder key c aad := by
  cases hr : s.key.read with
  | error err => simp [openFor, hr] at h
  | ok m =>
    cases heff : m.effective with
    | symmetric key =>
      refine ⟨m, key, rfl, heff, ?_⟩
      simp only [openFor, hr, heff] at h
      by_cases hlen : c.iv.length ≠ s.cipher.ivLength ∨ c.tag.length ≠ s.cipher.tagLength
      · simp [hlen] at h
      · by_cases hroom : room < c.ciphertext.length
        · simp [hlen, hroom] at h
        · simp only [hlen, hroom, if_false] at h
          cases hc : s.cipher with
          | gcm bits =>
            simp only [hc, openGcm] at h
            split at h
            · next text htext =>
              simpa [tagUnder, hc] using tag_of_openGcm? htext
            · cases h
          | cbcHmac bits hash =>
            simp only [hc, openChained] at h
            split at h
            · cases h
            · next hgood =>
              simp only [not_or, ne_eq, Decidable.not_not] at hgood hlen
              have htag := hlen.2
              rw [hc] at htag
              simp only [tagUnder, hc, ← htag]
              exact hgood.1.symm
    | _ => simp [openFor, hr, heff] at h

/-- Two tags that both open a ciphertext under one key are equal. -/
theorem tag_unique {s : Sealer} {c : Sealed} {aad tag text text' : Bytes}
    (h : s.decrypt c aad = .ok text) (h' : s.decrypt { c with tag := tag } aad = .ok text') :
    tag = c.tag := by
  obtain ⟨written, n, ho⟩ := openFor_of_decrypt h
  obtain ⟨written', n', ho'⟩ := openFor_of_decrypt h'
  obtain ⟨m, key, hm, heff, htag⟩ := tag_of_openFor ho
  obtain ⟨m', key', hm', heff', htag'⟩ := tag_of_openFor ho'
  rw [hm, Except.ok.injEq] at hm'
  subst hm'
  rw [heff, KeyMaterial.symmetric.injEq] at heff'
  subst heff'
  rw [htag]
  exact htag'

end Sealer

/-! ### Content keys -/

namespace KeyWrapper

theorem still_unwrap {w : KeyWrapper} (hw : ∀ h, w.method ≠ .rsaOaep h) (encrypted : Bytes)
    (parameters : WrapParameters) (enc : Algorithm) :
    (w.unwrap encrypted parameters enc).Still := by
  refine (Draw.still_ofExcept _).bind fun length => (Draw.still_ofExcept _).bind fun m => ?_
  refine Draw.Still.bind ?_ fun key => ?_
  · unfold unwrapMaterial
    cases hm : w.method with
    | direct =>
      dsimp only
      split
      · exact Draw.still_throw _
      · exact Draw.still_ofExcept _
    | aesWrap bits => exact Draw.still_ofExcept _
    | gcmWrap bits =>
      dsimp only
      split
      · exact Draw.still_ofExcept _
      · exact Draw.still_throw _
    | agreement bits => exact Draw.still_ofExcept _
    | password hash bits => exact Draw.still_ofExcept _
    | rsaOaep hash => exact absurd hm (hw hash)
  · split
    · exact Draw.still_throw _
    · exact Draw.still_ofExcept (.ok _)

end KeyWrapper

theorem Base64Url.kind_of_decode {text : String} {cause : Fault}
    (h : decode text = .error cause) : cause.kind = .format := by
  cases hl : decodedLength text.utf8ByteSize with
  | error err =>
    simp only [decode, hl, error_bind, Except.error.injEq] at h
    subst h
    simp only [decodedLength] at hl
    split at hl
    · cases hl
      rfl
    · cases hl
  | ok n =>
    simp only [decode, hl, ok_bind] at h
    split at h
    · cases h
    · cases h
      rfl

def SealedReading.withTag (c : SealedReading) (tag : Bytes) : SealedReading :=
  { c with parcel := { c.parcel with content := { c.parcel.content with tag := tag } } }

namespace Recipient

theorem contenders_single {a : Algorithm} {h : Header} {k k' : SecretKey}
    (hk : k' ∈ contenders a h [k]) : contenders a h [k] = [k'] := by
  by_cases ha : a.keyType = .none
  · simp only [contenders, ha, if_true, List.mem_singleton] at hk ⊢
    rw [hk]
  · simp only [contenders, ha, if_false] at hk ⊢
    have hmem := List.mem_filter.1 hk
    obtain rfl : k' = k := by simpa using hmem.1
    rw [List.filter_cons, if_pos hmem.2, List.filter_nil]

theorem settleSealed_single {r : Recipient} {k : SecretKey} {c : SealedReading} {t : DecodedToken}
    {e e₁ : Entropy} (hkeys : r.keys = [k]) (h : r.settleSealed c e = (.ok t, e₁)) :
    ∃ k' text payload e₂, contenders c.parcel.algorithm c.header r.keys = [k'] ∧
      opening c.parcel none false [k'] e = (.ok (k', text), e₂) ∧
      expanded c.zip text = .ok payload ∧ t = ⟨c.header, payload, k'.id, none⟩ := by
  obtain ⟨keys, hfor, h⟩ := Draw.ofExcept_bind_eq_ok.1 h
  obtain ⟨⟨k₁, text⟩, e₂, hopen, h⟩ := Draw.bind_eq_ok.1 h
  obtain ⟨payload, hpayload, h⟩ := Draw.ofExcept_bind_eq_ok.1 h
  rw [Draw.pure_apply, Prod.mk.injEq, Except.ok.injEq] at h
  obtain ⟨rfl, -⟩ := h
  have hcont : contenders c.parcel.algorithm c.header r.keys = keys ∧ keys ≠ [] := by
    rw [keysFor_eq] at hfor
    split at hfor
    · cases hfor
    · next hne =>
      cases hfor
      exact ⟨rfl, fun hnil => hne (by rw [hnil]; rfl)⟩
  obtain ⟨k', hk'⟩ := List.exists_mem_of_ne_nil keys hcont.2
  have hsingle : keys = [k'] := by
    rw [← hcont.1, hkeys] at hk' ⊢
    exact contenders_single hk'
  subst hsingle
  obtain ⟨rfl, -⟩ := opening_single hopen
  exact ⟨k₁, text, payload, e₂, hcont.1, hopen, mapError_eq_ok.1 hpayload, rfl⟩

/-- What a single key opened it does not open with another tag. -/
theorem settleSealed_withTag {r : Recipient} {k : SecretKey} {c : SealedReading}
    {t : DecodedToken} {tag : Bytes} {e e₁ e' : Entropy} (hkeys : r.keys = [k])
    (hmethod : ∀ h, c.parcel.algorithm.method ≠ .keyManagement (.rsaOaep h))
    (h : r.settleSealed c e = (.ok t, e₁)) (htag : tag ≠ c.parcel.content.tag) :
    (r.settleSealed (c.withTag tag) e').1 = .error .integrity := by
  obtain ⟨k₁, text, -, e₂, hcont, hopen, -, -⟩ := settleSealed_single hkeys h
  obtain ⟨-, w, contentKey, hbind, hunwrap, htext⟩ := opening_single hopen
  obtain ⟨m, hm, -, rfl⟩ := KeyWrapper.bind_eq_ok.1 hbind
  obtain ⟨x, hx⟩ := KeyWrapper.still_unwrap (w := ⟨k₁, c.parcel.algorithm, m, c.parcel.limits, {}⟩)
    (fun hash heq => hmethod hash (hm.trans (congrArg _ heq))) c.parcel.encryptedKey
    c.parcel.parameters c.parcel.enc
  obtain rfl : x = .ok contentKey := by
    rw [hx] at hunwrap
    exact (Prod.mk.inj hunwrap).1
  have hunwrap' : KeyWrapper.unwrap ⟨k₁, c.parcel.algorithm, m, c.parcel.limits, {}⟩
      c.parcel.encryptedKey c.parcel.parameters c.parcel.enc e' = (.ok contentKey, e') := by
    rw [hx]
    rfl
  have hopen' : opening (c.withTag tag).parcel none false [k₁] e' = (.error .integrity, e') := by
    cases htext' : (c.withTag tag).parcel.contentUnder contentKey with
    | error cause =>
      exact opening_forged (p := (c.withTag tag).parcel) hbind hunwrap' htext'
    | ok text' =>
      obtain ⟨s, hs, hdec⟩ := bind_eq_ok.1 htext
      obtain ⟨s', hs', hdec'⟩ := bind_eq_ok.1 htext'
      obtain rfl : s = s' := Except.ok.inj (hs.symm.trans hs')
      exact absurd (Sealer.tag_unique hdec hdec') htag
  have hfor' : r.keysFor (c.withTag tag).parcel.algorithm (c.withTag tag).alg
      (c.withTag tag).header = .ok [k₁] := by
    have hcont' : contenders (c.withTag tag).parcel.algorithm (c.withTag tag).header r.keys =
        [k₁] := hcont
    rw [keysFor_eq, hcont']
    rfl
  rw [settleSealed, hfor', Draw.ofExcept_ok_bind, Draw.bind_error hopen']

/-! ### Encrypted tokens -/

theorem readSealed_withTag {r : Recipient} {p : SealedParts} {c : SealedReading} {other : String}
    {tag : Bytes} (h : r.readSealed p = .ok c) (htag : Base64Url.decode other = .ok tag) :
    r.readSealed { p with tag := other } = .ok (c.withTag tag) := by
  have hc := readSealed_eq_ok.1 h
  exact readSealed_eq_ok.2 ⟨hc.header, hc.critical, hc.alg, hc.enc, hc.knownAlg, hc.knownEnc,
    hc.zip, hc.limits, hc.parameters, hc.encryptedKey, hc.iv, hc.ciphertext, htag, hc.aad⟩

/-- The tag is decoded last, so nothing else is wrong when it does not decode. -/
theorem readSealed_of_badTag {r : Recipient} {p : SealedParts} {c : SealedReading}
    {other : String} {cause : Fault} (h : r.readSealed p = .ok c)
    (htag : Base64Url.decode other = .error cause) :
    r.readSealed { p with tag := other } = .error (.fault cause) := by
  have hc := readSealed_eq_ok.1 h
  obtain ⟨m, hm, hparams⟩ := hc.parameters
  have hscreen : r.options.screenSealed { p with tag := other } =
      .ok ⟨{ p with tag := other }, c.header, c.alg, c.enc⟩ :=
    Options.screenSealed_eq_ok.2 ⟨rfl, hc.header, hc.critical, hc.alg, hc.enc⟩
  simp [readSealed, hscreen, parcelOf, hc.knownAlg, hc.knownEnc, hc.zip,
    managementOf_eq_ok.2 hm, hparams, bytesOf, hc.encryptedKey, hc.iv, hc.ciphertext, htag]

theorem code_of_rsaOaep {code : String} {a : Algorithm} {hash : HashId}
    (h : Known.find (.ok Algorithm.builtin) .keyManagement code = .ok a)
    (hm : a.method = .keyManagement (.rsaOaep hash)) : code = "RSA-OAEP-256" := by
  obtain ⟨hmem, hfamily⟩ := Known.mem_builtin h
  have hall : ∀ a ∈ Algorithm.keyManagement, ∀ hash,
      a.method = .keyManagement (.rsaOaep hash) → a.code = "RSA-OAEP-256" := by
    simp [Algorithm.keyManagement, Algorithm.direct, Algorithm.wrapping, Algorithm.agreement,
      Algorithm.password]
  rw [← (Known.find_eq_ok h).2]
  exact hall a ((Algorithm.mem_of_family hmem).2 hfamily) hash hm

/-! ### Signed tokens -/

theorem method_of_hmacCode {code : String} {a : Algorithm}
    (hcode : code ∈ ["HS256", "HS384", "HS512"])
    (h : Known.find (.ok Algorithm.builtin) .signature code = .ok a) :
    ∃ hash, a.method = .signature (.hmac hash) := by
  simp only [List.mem_cons, List.not_mem_nil, or_false] at hcode
  obtain rfl | rfl | rfl := hcode
  · exact ⟨.sha256, by rw [← Except.ok.inj h]; rfl⟩
  · exact ⟨.sha384, by rw [← Except.ok.inj h]; rfl⟩
  · exact ⟨.sha512, by rw [← Except.ok.inj h]; rfl⟩

theorem verifies_other {a : Algorithm} {hash : HashId} {input signature other : Bytes}
    {k : SecretKey} (ha : a.method = .signature (.hmac hash))
    (hv : verifies a input signature k = true) (hne : other ≠ signature) :
    verifies a input other k = false := by
  simp only [verifies, ha, Bool.and_eq_true] at hv ⊢
  cases hm : k.material with
  | none => simp
  | some m =>
    simp only [hm, Signer.matchesMaterial] at hv ⊢
    cases heff : m.effective with
    | symmetric bytes =>
      simp only [heff, decide_eq_true_eq] at hv
      simp [hv.2, Ne.symm hne]
    | _ => simp

theorem readSigned_of_badSignature {r : Recipient} {p : SignedParts} {c : SignedReading}
    {other : String} {cause : Fault} (h : r.readSigned p = .ok c)
    (hother : Base64Url.decode other = .error cause) :
    r.readSigned { p with signature := other } = .error (.fault cause) := by
  have hc := readSigned_eq_ok.1 h
  have hscreen : r.options.screenSigned { p with signature := other } =
      .ok ⟨{ p with signature := other }, c.header, c.algorithm.code⟩ :=
    Options.screenSigned_eq_ok.2 ⟨rfl, hc.header, hc.critical, hc.alg, hc.secured⟩
  simp [readSigned, hscreen, hc.known, bytesOf, hother]

theorem settleSigned_other {r : Recipient} {p : SignedParts} {c : SignedReading} {k : SecretKey}
    {hash : HashId} {other : String} {signature : Bytes} {t : DecodedToken} (hkeys : r.keys = [k])
    (ha : c.algorithm.method = .signature (.hmac hash))
    (h : (r.readSigned p >>= r.settleSigned p) = .ok t) (hc : r.readSigned p = .ok c)
    (hother : Base64Url.decode other = .ok signature) (hne : signature ≠ c.signature) :
    ∃ err, (r.readSigned { p with signature := other } >>=
      r.settleSigned { p with signature := other }) = .error err ∧ err.kind = .integrity := by
  obtain ⟨c', hc', k', hk', -⟩ := settled_eq_ok.1 h
  obtain rfl : c = c' := Except.ok.inj (hc.symm.trans (readSigned_eq_ok.2 hc'))
  have hreads : r.Reads { p with signature := other } { c with signature := signature } :=
    ⟨hc'.header, hc'.critical, hc'.alg, hc'.known, hc'.secured, hc'.payload, hother⟩
  have hv := List.find?_some hk'
  have hmem := List.mem_of_find?_eq_some hk'
  have hsingle : contenders c.algorithm c.header r.keys = [k'] := by
    rw [hkeys] at hmem ⊢
    exact contenders_single hmem
  have hnone : ∀ k ∈ contenders c.algorithm c.header r.keys,
      verifies c.algorithm (Bytes.ofText p.signingInput) signature k = false := by
    rw [hsingle]
    intro k hk
    rw [List.mem_singleton.1 hk]
    exact verifies_other ha hv hne
  obtain ⟨err, herr, hkind⟩ := settleSigned_of_none hreads hnone
  have hlegal : c.algorithm.isLegalSize k'.profile.bits = true := (Bool.and_eq_true_iff.1 hv).1
  refine ⟨err, by rw [readSigned_eq_ok.2 hreads]; exact herr, ?_⟩
  rw [hkind]
  simp [refusal, hsingle, hlegal]

/-! ### The last segment -/

/-- How a token is refused for its last segment: as a forgery if the segment decodes and the token
is not too long, and as malformed otherwise. -/
def RefusedFor (o : Options) (token other : String) (x : Except TokenError DecodedToken) : Prop :=
  ∃ err, x = .error err ∧
    ((∃ bytes, Base64Url.decode other = .ok bytes) → token.utf8ByteSize ≤ o.maxTokenLength →
      err.kind = .integrity) ∧
    (¬ ((∃ bytes, Base64Url.decode other = .ok bytes) ∧
      token.utf8ByteSize ≤ o.maxTokenLength) → err.kind = .format)

theorem refusedFor_tooLong {r : Recipient} {token other : String} {e : Entropy}
    (hlen : r.options.maxTokenLength < token.utf8ByteSize) :
    RefusedFor r.options token other (r.decode token e).1 := by
  rw [decode_tooLong hlen]
  exact ⟨_, rfl, fun _ hle => absurd hle (Nat.not_le.2 hlen), fun _ => rfl⟩

theorem refusedFor_badText {o : Options} {token other : String} {cause : Fault}
    (h : Base64Url.decode other = .error cause) :
    RefusedFor o token other (.error (.fault cause)) := by
  refine ⟨_, rfl, ?_, fun _ => Base64Url.kind_of_decode h⟩
  rintro ⟨bytes, hb⟩
  rw [h] at hb
  cases hb

theorem refusedFor_forgery {o : Options} {token other : String} {bytes : Bytes} {err : TokenError}
    (hlen : token.utf8ByteSize ≤ o.maxTokenLength) (h : Base64Url.decode other = .ok bytes)
    (hkind : err.kind = .integrity) : RefusedFor o token other (.error err) :=
  ⟨err, rfl, fun _ _ => hkind, fun hn => absurd ⟨⟨bytes, h⟩, hlen⟩ hn⟩

theorem bytes_ne_of_ne {last other : String} {a b : Bytes} (hne : other ≠ last)
    (ha : Base64Url.decode last = .ok a) (hb : Base64Url.decode other = .ok b) : b ≠ a := by
  rintro rfl
  exact hne ((Base64Url.decode_eq_ok_iff.1 hb).trans (Base64Url.decode_eq_ok_iff.1 ha).symm)

theorem length_of_decode {r : Recipient} {token : String} {e : Entropy} {t : DecodedToken}
    (h : (r.decode token e).1 = .ok t) : token.utf8ByteSize ≤ r.options.maxTokenLength := by
  refine Nat.not_lt.1 fun hlen => ?_
  rw [decode_tooLong hlen] at h
  cases h

theorem refused_of_sealed {o : Options} {k : SecretKey} {p : SealedParts} {h : Header}
    {token token' other : String} {e e' : Entropy} {t : DecodedToken}
    (htoken : splitDots token = [p.header, p.encryptedKey, p.iv, p.ciphertext, p.tag])
    (htoken' : splitDots token' = [p.header, p.encryptedKey, p.iv, p.ciphertext, other])
    (hheader : Header.ofSegment p.header = .ok h)
    (halg : h.get? "alg" ≠ some (.string "RSA-OAEP-256")) (hne : other ≠ p.tag)
    (haccept : (decode ⟨o, .ok Algorithm.builtin, [k]⟩ token e).1 = .ok t) :
    RefusedFor o token' other (decode ⟨o, .ok Algorithm.builtin, [k]⟩ token' e').1 := by
  have hlen := length_of_decode haccept
  by_cases hlen' : token'.utf8ByteSize ≤ o.maxTokenLength
  · rw [decode_sealed (p := { p with tag := other }) htoken' hlen']
    rw [decode_sealed htoken hlen] at haccept
    obtain ⟨outer, e₁, houter, -⟩ := Draw.bind_eq_ok.1 (Prod.ext haccept rfl)
    obtain ⟨c, hc, hsettle⟩ := Draw.ofExcept_bind_eq_ok.1 houter
    have hreads := readSealed_eq_ok.1 hc
    cases hb : Base64Url.decode other with
    | error cause =>
      rw [readSealed_of_badTag hc hb, Draw.bind_error (Draw.ofExcept_error_bind _ _ e')]
      exact refusedFor_badText hb
    | ok tag =>
      have hmethod : ∀ hash, c.parcel.algorithm.method ≠ .keyManagement (.rsaOaep hash) := by
        intro hash hm
        have hsame : c.header = h :=
          Except.ok.inj ((Header.ofSegment_eq_ok.2 hreads.header).symm.trans hheader)
        exact halg (by rw [← hsame, hreads.alg, code_of_rsaOaep hreads.knownAlg hm])
      have herr : (settleSealed ⟨o, .ok Algorithm.builtin, [k]⟩ (c.withTag tag) e').1 =
          .error .integrity :=
        settleSealed_withTag rfl hmethod hsettle (bytes_ne_of_ne hne hreads.tag hb)
      rw [readSealed_withTag hc hb, Draw.bind_error
        ((Draw.ofExcept_ok_bind _ _ e').trans (Prod.ext herr rfl))]
      exact refusedFor_forgery hlen' hb rfl
  · exact refusedFor_tooLong (Nat.not_le.1 hlen')

theorem refused_of_signed {o : Options} {k : SecretKey} {p : SignedParts} {h : Header}
    {token token' other code : String} {e e' : Entropy} {t : DecodedToken}
    (htoken : splitDots token = [p.header, p.payload, p.signature])
    (htoken' : splitDots token' = [p.header, p.payload, other])
    (hheader : Header.ofSegment p.header = .ok h)
    (hcode : code ∈ ["HS256", "HS384", "HS512"]) (halg : h.get? "alg" = some (.string code))
    (hne : other ≠ p.signature)
    (haccept : (decode ⟨o, .ok Algorithm.builtin, [k]⟩ token e).1 = .ok t) :
    RefusedFor o token' other (decode ⟨o, .ok Algorithm.builtin, [k]⟩ token' e').1 := by
  have hlen := length_of_decode haccept
  by_cases hlen' : token'.utf8ByteSize ≤ o.maxTokenLength
  · rw [decode_signed (p := { p with signature := other }) htoken' hlen']
    rw [decode_signed htoken hlen] at haccept
    obtain ⟨c, hc, -⟩ := bind_eq_ok.1 haccept
    have hreads := readSigned_eq_ok.1 hc
    cases hb : Base64Url.decode other with
    | error cause =>
      rw [readSigned_of_badSignature hc hb]
      exact refusedFor_badText hb
    | ok signature =>
      have hmethod : ∃ hash, c.algorithm.method = .signature (.hmac hash) := by
        have hsame : c.header = h :=
          Except.ok.inj ((Header.ofSegment_eq_ok.2 hreads.header).symm.trans hheader)
        have halg' := hreads.alg
        rw [hsame, halg] at halg'
        obtain rfl : code = c.algorithm.code := by simpa using halg'
        exact method_of_hmacCode hcode hreads.known
      obtain ⟨hash, hm⟩ := hmethod
      obtain ⟨err, herr, hkind⟩ := settleSigned_other rfl hm haccept hc hb
        (bytes_ne_of_ne hne hreads.signature hb)
      rw [herr]
      exact refusedFor_forgery hlen' hb hkind
  · exact refusedFor_tooLong (Nat.not_le.1 hlen')

/-- The last segment of a token that one key opens cannot be exchanged: not for another spelling of
its bytes, not for fewer or more of them, not for others. This needs nothing of the ciphers. -/
theorem decode_other_last_segment {o : Options} {k : SecretKey} {input last other header : String}
    {rest : List String} {h : Header} {e e' : Entropy} {t : DecodedToken}
    (hsegments : splitDots input = header :: rest) (hheader : Header.ofSegment header = .ok h)
    (hkind : rest.length = 3 ∧ h.get? "alg" ≠ some (.string "RSA-OAEP-256") ∨
      rest.length = 1 ∧ ∃ code ∈ ["HS256", "HS384", "HS512"],
        h.get? "alg" = some (.string code))
    (hlast : '.' ∉ last.toList) (hother : '.' ∉ other.toList) (hne : other ≠ last)
    (haccept : (decode ⟨o, .ok Algorithm.builtin, [k]⟩ (input ++ "." ++ last) e).1 = .ok t) :
    RefusedFor o (input ++ "." ++ other) other
      (decode ⟨o, .ok Algorithm.builtin, [k]⟩ (input ++ "." ++ other) e').1 := by
  have hparts : ∀ s : String, '.' ∉ s.toList →
      splitDots (input ++ "." ++ s) = header :: rest ++ [s] := by
    intro s hs
    rw [splitDots_append, hsegments, splitDots_dotless hs]
  obtain ⟨hlen, halg⟩ | ⟨hlen, code, hcode, halg⟩ := hkind
  · obtain ⟨key, iv, text, rfl⟩ : ∃ key iv text, rest = [key, iv, text] := by
      match rest, hlen with
      | [key, iv, text], _ => exact ⟨key, iv, text, rfl⟩
    exact refused_of_sealed (p := ⟨header, key, iv, text, last⟩) (hparts last hlast)
      (hparts other hother) hheader halg hne haccept
  · obtain ⟨payload, rfl⟩ := List.length_eq_one_iff.1 hlen
    exact refused_of_signed (p := ⟨header, payload, last⟩) (hparts last hlast)
      (hparts other hother) hheader hcode halg hne haccept

theorem decode_other_last_segment_greeting :
    ∃ t, (decode ⟨plainIssuer.options, .ok Algorithm.builtin, [zeroKey "a"]⟩
        (greetingInput ++ "." ++ Issuer.segment greetingTag) (Entropy.scrambled 1)).1 = .ok t ∧
      "" ≠ Issuer.segment greetingTag ∧
      RefusedFor plainIssuer.options (greetingInput ++ "." ++ "") ""
        (decode ⟨plainIssuer.options, .ok Algorithm.builtin, [zeroKey "a"]⟩
          (greetingInput ++ "." ++ "") (Entropy.scrambled 2)).1 := by
  let r : Recipient := ⟨plainIssuer.options, .ok Algorithm.builtin, [zeroKey "a"]⟩
  have hparts : splitDots (greetingInput ++ "." ++ Issuer.segment greetingTag) =
      [greetingHeader.toSegment, Issuer.segment (Bytes.ofText "hi"),
        Issuer.segment greetingTag] := by
    rw [splitDots_append, splitDots_greeting, Issuer.splitDots_segment]
    rfl
  have hsign : greetingSigner.sign (Bytes.ofText (greetingHeader.toSegment ++ "." ++
      Issuer.segment (Bytes.ofText "hi"))) (Entropy.scrambled 1) =
        (.ok greetingTag, Entropy.scrambled 1) := rfl
  obtain ⟨t, ht, -⟩ := settled_of_sign (r := r) rfl signer_greeting hsign Header.isPlain_empty rfl
    rfl (by decide) (fun m hm => verifiesOwn_greeting signer_greeting hm)
    (by simp [r, greetingSigner])
  have haccept : (r.decode (greetingInput ++ "." ++ Issuer.segment greetingTag)
      (Entropy.scrambled 1)).1 = .ok t := by
    rw [decode_signed (p := ⟨_, _, _⟩) hparts length_greeting]
    exact ht
  have hne : "" ≠ Issuer.segment greetingTag := by
    intro heq
    have hsize := congrArg String.utf8ByteSize heq
    rw [Issuer.segment, Base64Url.utf8ByteSize_encode, greetingTag, length_hmac] at hsize
    exact absurd hsize (by decide)
  have hheader : Header.ofSegment greetingHeader.toSegment = .ok greetingHeader :=
    Header.ofSegment_toSegment (Issuer.isPlain_signedHeader _ _ Header.isPlain_empty)
  exact ⟨t, haccept, hne, decode_other_last_segment splitDots_greeting hheader
    (.inr ⟨rfl, "HS256", by decide, rfl⟩) (Base64Url.dot_notMem_encode _) (by decide) hne haccept⟩

end Recipient

end TokenSeal
