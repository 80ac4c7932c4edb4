import TokenSeal.Proofs.KeySearch

/-! What lies behind a token that was accepted: which of the three ways it was read, what was checked
of it before any key, and the key that verified or opened it. -/

namespace TokenSeal

theorem CompactToken.parse_eq_signed {token : String} {p : SignedParts} :
    parse token = .ok (.signed p) ↔ splitDots token = [p.header, p.payload, p.signature] := by
  constructor
  · intro h
    unfold parse at h
    split at h
    · next hsplit =>
      cases h
      exact hsplit
    · cases h
    · cases h
  · intro h
    simp [parse, h]

theorem CompactToken.parse_eq_encrypted {token : String} {p : SealedParts} :
    parse token = .ok (.encrypted p) ↔
      splitDots token = [p.header, p.encryptedKey, p.iv, p.ciphertext, p.tag] := by
  constructor
  · intro h
    unfold parse at h
    split at h
    · cases h
    · next hsplit =>
      cases h
      exact hsplit
    · cases h
  · intro h
    simp [parse, h]

namespace Recipient

/-- The first of the keys in question that verifies a signed token. -/
structure SignedUnder (r : Recipient) (p : SignedParts) (c : SignedReading) (k : SecretKey) :
    Prop where
  reads : r.Reads p c
  found : (contenders c.algorithm c.header r.keys).find?
    (verifies c.algorithm (Bytes.ofText p.signingInput) c.signature) = some k

/-- One of the keys in question opens an encrypted token, with this payload in it. -/
structure SealedUnder (r : Recipient) (p : SealedParts) (c : SealedReading) (k : SecretKey)
    (payload : Bytes) : Prop where
  reads : r.ReadsSealed p c
  contender : k ∈ contenders c.parcel.algorithm c.header r.keys
  opens : ∃ w contentKey e e' text, KeyWrapper.bind c.parcel.limits k c.parcel.algorithm = .ok w ∧
    w.unwrap c.parcel.encryptedKey c.parcel.parameters c.parcel.enc e = (.ok contentKey, e') ∧
    c.parcel.contentUnder contentKey = .ok text ∧ expanded c.zip text = .ok payload

/-- The three ways in which a token comes to be read. -/
inductive Accepts (r : Recipient) (token : String) : DecodedToken → Prop
  | signed {p : SignedParts} {c : SignedReading} {k : SecretKey}
      (split : splitDots token = [p.header, p.payload, p.signature])
      (signed : r.SignedUnder p c k) :
      Accepts r token ⟨c.header, c.payload, k.id, none⟩
  | encrypted {p : SealedParts} {c : SealedReading} {k : SecretKey} {payload : Bytes}
      (split : splitDots token = [p.header, p.encryptedKey, p.iv, p.ciphertext, p.tag])
      (opened : r.SealedUnder p c k payload)
      (left : ¬ (r.options.unwrapNested = true ∧ c.header.isNested = true)) :
      Accepts r token ⟨c.header, payload, k.id, none⟩
  | nested {p : SealedParts} {c : SealedReading} {k : SecretKey} {payload : Bytes} {text : String}
      {q : SignedParts} {d : SignedReading} {k' : SecretKey}
      (split : splitDots token = [p.header, p.encryptedKey, p.iv, p.ciphertext, p.tag])
      (opened : r.SealedUnder p c k payload)
      (inside : Bytes.toText? payload = some text)
      (inner : splitDots text = [q.header, q.payload, q.signature])
      (signed : r.SignedUnder q d k') :
      Accepts r token ⟨d.header, d.payload, k'.id, some c.header⟩

theorem settled_eq_ok_signed {r : Recipient} {p : SignedParts} {t : DecodedToken} :
    (r.readSigned p >>= r.settleSigned p) = .ok t ↔
      ∃ c k, r.SignedUnder p c k ∧ t = ⟨c.header, c.payload, k.id, none⟩ := by
  rw [settled_eq_ok]
  constructor
  · rintro ⟨c, hreads, k, hk, rfl⟩
    exact ⟨c, k, ⟨hreads, hk⟩, rfl⟩
  · rintro ⟨c, k, ⟨hreads, hk⟩, rfl⟩
    exact ⟨c, hreads, k, hk, rfl⟩

theorem opening_eq_ok {p : Parcel} {keys : List SecretKey} {k : SecretKey} {text : Bytes}
    {bindingFault : Option Fault} {attempted : Bool} {e e' : Entropy}
    (h : opening p bindingFault attempted keys e = (.ok (k, text), e')) :
    k ∈ keys ∧ ∃ w contentKey e₁ e₂, KeyWrapper.bind p.limits k p.algorithm = .ok w ∧
      w.unwrap p.encryptedKey p.parameters p.enc e₁ = (.ok contentKey, e₂) ∧
        p.contentUnder contentKey = .ok text := by
  induction keys generalizing bindingFault attempted e with
  | nil =>
    rw [opening_nil] at h
    cases h
  | cons k' rest ih =>
    have hlater : ∀ {bindingFault attempted e},
        opening p bindingFault attempted rest e = (.ok (k, text), e') →
        k ∈ k' :: rest ∧ ∃ w contentKey e₁ e₂, KeyWrapper.bind p.limits k p.algorithm = .ok w ∧
          w.unwrap p.encryptedKey p.parameters p.enc e₁ = (.ok contentKey, e₂) ∧
            p.contentUnder contentKey = .ok text := by
      intro _ _ _ hrest
      obtain ⟨hmem, hopens⟩ := ih hrest
      exact ⟨List.mem_cons_of_mem _ hmem, hopens⟩
    cases hbind : KeyWrapper.bind p.limits k' p.algorithm with
    | error cause =>
      rw [opening_unbound hbind] at h
      exact hlater h
    | ok w =>
      rcases hunwrap : w.unwrap p.encryptedKey p.parameters p.enc e with ⟨cause | contentKey, e₁⟩
      · by_cases hcause : cause.kind = .format
        · rw [opening_malformed hbind hunwrap hcause] at h
          cases h
        · rw [opening_locked hbind hunwrap hcause] at h
          exact hlater h
      · cases htext : p.contentUnder contentKey with
        | error cause =>
          rw [opening_forged hbind hunwrap htext] at h
          exact hlater h
        | ok found =>
          rw [opening_found hbind hunwrap htext] at h
          cases h
          exact ⟨List.mem_cons_self, w, contentKey, e, _, hbind, hunwrap, htext⟩

theorem settleSealed_eq_ok {r : Recipient} {p : SealedParts} {c : SealedReading}
    {t : DecodedToken} {e e' : Entropy} (hreads : r.ReadsSealed p c)
    (h : r.settleSealed c e = (.ok t, e')) :
    ∃ k payload, r.SealedUnder p c k payload ∧ t = ⟨c.header, payload, k.id, none⟩ := by
  obtain ⟨keys, hkeys, h⟩ := Draw.ofExcept_bind_eq_ok.1 h
  obtain ⟨⟨k, text⟩, e₁, hopening, h⟩ := Draw.bind_eq_ok.1 h
  obtain ⟨payload, hpayload, h⟩ := Draw.ofExcept_bind_eq_ok.1 h
  rw [Draw.pure_apply, Prod.mk.injEq, Except.ok.injEq] at h
  obtain ⟨rfl, -⟩ := h
  obtain ⟨hmem, w, contentKey, e₂, e₃, hbind, hunwrap, htext⟩ := opening_eq_ok hopening
  have hcontenders : keys = contenders c.parcel.algorithm c.header r.keys := by
    rw [keysFor_eq] at hkeys
    split at hkeys
    · cases hkeys
    · exact (Except.ok.inj hkeys).symm
  exact ⟨k, payload, ⟨hreads, hcontenders ▸ hmem, w, contentKey, e₂, e₃, text, hbind, hunwrap, htext,
    mapError_eq_ok.1 hpayload⟩, rfl⟩

theorem openNested_eq_ok {r : Recipient} {outer t : DecodedToken}
    (h : r.openNested outer = .ok t) :
    ∃ text q d k, Bytes.toText? outer.payload = some text ∧
      splitDots text = [q.header, q.payload, q.signature] ∧ r.SignedUnder q d k ∧
        t = ⟨d.header, d.payload, k.id, some outer.header⟩ := by
  cases htext : Bytes.toText? outer.payload with
  | none => simp [openNested, htext] at h
  | some text =>
    cases hparse : CompactToken.parse text with
    | error err => simp [openNested, htext, hparse] at h
    | ok parsed =>
      cases parsed with
      | encrypted q => simp [openNested, htext, hparse] at h
      | signed q =>
        have hinner := CompactToken.parse_eq_signed.1 hparse
        rw [openNested_of_text htext hinner, map_eq_ok] at h
        obtain ⟨inner, hsettled, rfl⟩ := h
        obtain ⟨d, k, hsigned, rfl⟩ := settled_eq_ok_signed.1 hsettled
        exact ⟨text, q, d, k, rfl, hinner, hsigned, rfl⟩

/-- A token that is accepted is accepted in one of the three ways. -/
theorem accepts_of_decode {r : Recipient} {token : String} {e : Entropy} {t : DecodedToken}
    (h : (r.decode token e).1 = .ok t) : r.Accepts token t := by
  have hlen := length_of_decode h
  cases hparse : CompactToken.parse token with
  | error err =>
    have hscreen : r.options.screen token = .error err := by
      simp [Options.screen, Nat.not_lt.2 hlen, hparse]
    rw [decode, hscreen] at h
    cases h
  | ok parsed =>
    cases parsed with
    | signed p =>
      have hsplit := CompactToken.parse_eq_signed.1 hparse
      rw [decode_signed hsplit hlen] at h
      obtain ⟨c, k, hsigned, rfl⟩ := settled_eq_ok_signed.1 h
      exact .signed hsplit hsigned
    | encrypted p =>
      have hsplit := CompactToken.parse_eq_encrypted.1 hparse
      rw [decode_sealed hsplit hlen] at h
      obtain ⟨outer, e₁, houter, hunnest⟩ := Draw.bind_eq_ok.1 (Prod.ext h rfl)
      obtain ⟨c, hc, hsettle⟩ := Draw.ofExcept_bind_eq_ok.1 houter
      obtain ⟨k, payload, hopened, rfl⟩ := settleSealed_eq_ok (readSealed_eq_ok.1 hc) hsettle
      unfold unnest at hunnest
      split at hunnest
      · obtain ⟨text, q, d, k', htext, hinner, hsigned, rfl⟩ :=
          openNested_eq_ok (Draw.ofExcept_eq_ok.1 hunnest).1
        exact .nested hsplit hopened htext hinner hsigned
      · next hleft =>
        obtain rfl := Except.ok.inj (Prod.mk.inj hunnest).1
        exact .encrypted hsplit hopened hleft

end Recipient

end TokenSeal
