import TokenSeal.Proofs.Acceptance
import TokenSeal.Proofs.SignedRoundTrip
import TokenSeal.Supply.Registry

/-! Which tokens are let through when unsecured ones are not: those that a key at hand vouches for,
and those under an algorithm without a check that the registry itself has under another name. -/

namespace TokenSeal

/-- Without a key nothing but an empty signature can be verified. -/
theorem Signer.matchesMaterial_none {m : SignatureMethod} (hm : m ≠ .unsecured)
    (data signature : Bytes) : matchesMaterial m .none data signature = false := by
  cases m with
  | unsecured => exact absurd rfl hm
  | _ => rfl

theorem SecretKey.read_empty : empty.read = .ok .none := rfl

namespace Recipient

/-- A key vouches for what is read of a token: it verifies the signature under an algorithm that has
one, or it opens the encryption; for what is inside an encrypted token it does so there. -/
inductive Vouches (r : Recipient) (k : SecretKey) : String → DecodedToken → Prop
  | signed {token : String} {p : SignedParts} {c : SignedReading}
      (split : splitDots token = [p.header, p.payload, p.signature])
      (reads : r.Reads p c)
      (secured : c.algorithm.method ≠ .signature .unsecured)
      (verified : verifies c.algorithm (Bytes.ofText p.signingInput) c.signature k = true) :
      Vouches r k token ⟨c.header, c.payload, k.id, none⟩
  | encrypted {token : String} {p : SealedParts} {c : SealedReading} {payload : Bytes}
      (split : splitDots token = [p.header, p.encryptedKey, p.iv, p.ciphertext, p.tag])
      (opened : r.SealedUnder p c k payload) :
      Vouches r k token ⟨c.header, payload, k.id, none⟩
  | nested {token text : String} {p : SealedParts} {c : SealedReading} {k' : SecretKey}
      {payload : Bytes} {inner : DecodedToken}
      (split : splitDots token = [p.header, p.encryptedKey, p.iv, p.ciphertext, p.tag])
      (opened : r.SealedUnder p c k' payload)
      (inside : Bytes.toText? payload = some text)
      (signed : Vouches r k text inner) :
      Vouches r k token { inner with outerHeader := some c.header }

theorem mem_of_contenders {a : Algorithm} {h : Header} {keys : List SecretKey} {k : SecretKey}
    (hk : k ∈ contenders a h keys) : k = SecretKey.empty ∨ k ∈ keys := by
  unfold contenders at hk
  split at hk
  · exact .inl (List.mem_singleton.1 hk)
  · exact .inr (List.mem_filter.1 hk).1

theorem SignedUnder.mem {r : Recipient} {p : SignedParts} {c : SignedReading} {k : SecretKey}
    (h : r.SignedUnder p c k) (hsecured : c.algorithm.method ≠ .signature .unsecured) :
    k ∈ r.keys := by
  obtain rfl | hmem := mem_of_contenders (List.mem_of_find?_eq_some h.found)
  -- The empty key was not found: it verifies nothing.
  · obtain ⟨m, hm⟩ := method_of_reads h.reads
    have hverified := List.find?_some h.found
    have hnone : Signer.matchesMaterial m .none (Bytes.ofText p.signingInput) c.signature = false :=
      Signer.matchesMaterial_none (fun heq => hsecured (by rw [hm, heq])) _ _
    simp [verifies, hm, SecretKey.empty, SecretKey.make, hnone] at hverified
  · exact hmem

theorem SealedUnder.mem {r : Recipient} {p : SealedParts} {c : SealedReading} {k : SecretKey}
    {payload : Bytes} (h : r.SealedUnder p c k payload) : k ∈ r.keys := by
  obtain rfl | hmem := mem_of_contenders h.contender
  -- The empty key opens nothing either, as only a private key is unwrapped with.
  · obtain ⟨w, contentKey, e, e', text, hbind, hunwrap, -⟩ := h.opens
    obtain ⟨m, -, -, rfl⟩ := KeyWrapper.bind_eq_ok.1 hbind
    have hprivate := KeyWrapper.isPrivate_of_unwrap SecretKey.read_empty hunwrap
    cases hprivate
  · exact hmem

/-- A signature algorithm without a check that is found under another name than the usual one. -/
def HasUnsecured (r : Recipient) (code : String) : Prop :=
  code ≠ "none" ∧ ∃ a, r.known.find .signature code = .ok a ∧ a.method = .signature .unsecured

theorem SignedUnder.vouches {r : Recipient} {token : String} {p : SignedParts} {c : SignedReading}
    {k : SecretKey} (h : r.SignedUnder p c k) (hunsecured : r.options.allowUnsecured = false)
    (hsplit : splitDots token = [p.header, p.payload, p.signature]) :
    (k ∈ r.keys ∧ r.Vouches k token ⟨c.header, c.payload, k.id, none⟩) ∨
      ∃ code, c.header.get? "alg" = some (.string code) ∧ r.HasUnsecured code := by
  by_cases hmethod : c.algorithm.method = .signature .unsecured
  · right
    refine ⟨c.algorithm.code, h.reads.alg, fun hcode => ?_, c.algorithm, h.reads.known, hmethod⟩
    rw [h.reads.secured hcode] at hunsecured
    cases hunsecured
  · exact .inl ⟨h.mem hmethod, .signed hsplit h.reads hmethod (List.find?_some h.found)⟩

/-- Where unsecured tokens are not let through, one of the keys vouches for every token that is
accepted, unless the registry has an algorithm without a check under a name of its own and the
header asks for that. What is let through by its name is `none` only. -/
theorem vouched_of_decode {r : Recipient} {token : String} {e : Entropy} {t : DecodedToken}
    (hunsecured : r.options.allowUnsecured = false) (h : (r.decode token e).1 = .ok t) :
    (∃ k ∈ r.keys, r.Vouches k token t) ∨
      ∃ code, t.header.get? "alg" = some (.string code) ∧ r.HasUnsecured code := by
  cases accepts_of_decode h with
  | signed hsplit hsigned =>
    obtain ⟨hmem, hvouches⟩ | hplain := hsigned.vouches hunsecured hsplit
    · exact .inl ⟨_, hmem, hvouches⟩
    · exact .inr hplain
  | encrypted hsplit hopened _ => exact .inl ⟨_, hopened.mem, .encrypted hsplit hopened⟩
  | nested hsplit hopened hinside hinner hsigned =>
    obtain ⟨hmem, hvouches⟩ | hplain := hsigned.vouches hunsecured hinner
    · exact .inl ⟨_, hmem, .nested hsplit hopened hinside hvouches⟩
    · exact .inr hplain

theorem vouched_of_decode_greeting :
    let r : Recipient := ⟨{}, .ok Algorithm.builtin, [zeroKey "a"]⟩
    let token := greetingInput ++ "." ++ Issuer.segment greetingTag
    r.options.allowUnsecured = false ∧
      ∃ t, (r.decode token (Entropy.scrambled 0)).1 = .ok t ∧ ∃ k ∈ r.keys, r.Vouches k token t := by
  intro r token
  have hsign : greetingSigner.sign (Bytes.ofText (greetingHeader.toSegment ++ "." ++
      Issuer.segment (Bytes.ofText "hi"))) (Entropy.scrambled 1) =
        (.ok greetingTag, Entropy.scrambled 1) := rfl
  obtain ⟨t, ht, hheader, -⟩ := settled_of_sign (r := r) rfl signer_greeting hsign
    Header.isPlain_empty rfl rfl (by decide) (fun m hm => verifiesOwn_greeting signer_greeting hm)
    (by simp [r, greetingSigner])
  let p : SignedParts :=
    ⟨greetingHeader.toSegment, Issuer.segment (Bytes.ofText "hi"), Issuer.segment greetingTag⟩
  have hparts : splitDots token = [p.header, p.payload, p.signature] :=
    Issuer.splitDots_signed greetingHeader (Bytes.ofText "hi") greetingTag
  have hdecode : (r.decode token (Entropy.scrambled 0)).1 = .ok t := by
    rw [decode_signed (r := r) hparts length_greeting]
    exact ht
  refine ⟨rfl, t, hdecode, ?_⟩
  obtain hvouched | ⟨code, halg, -, a, hfind, hmethod⟩ := vouched_of_decode rfl hdecode
  · exact hvouched
  · rw [hheader, Issuer.get?_signedHeader_alg] at halg
    obtain rfl : "HS256" = code := Json.string.inj (Option.some.inj halg)
    cases hfind
    cases hmethod

/-! ### An algorithm without a check -/

def plainAlgorithm : Algorithm := ⟨"plain", .none, [], 0, .signature .unsecured⟩

/-- The built-in registry with one source more. -/
def plainRegistry : Known := do
  let (ids, s) := Supply.empty.addItems [plainAlgorithm]
  let (source, s) := s.addSource ids false
  let (id, s) ← s.registryWith [source]
  (s.algorithms id).1

/-- Under that registry a token is accepted though unsecured ones are not, and though there is no
key to vouch for it. -/
theorem decode_plain :
    let r : Recipient := ⟨{}, plainRegistry, []⟩
    let token := "eyJhbGciOiJwbGFpbiJ9.aGk."
    r.options.allowUnsecured = false ∧
      ∃ t, (r.decode token (Entropy.scrambled 0)).1 = .ok t ∧ t.payload = Bytes.ofText "hi" ∧
        ¬ ∃ k ∈ r.keys, r.Vouches k token t := by
  intro r token
  let c : SignedReading :=
    ⟨Header.empty.insert "alg" (.string "plain"), plainAlgorithm, Bytes.ofText "hi", []⟩
  have hreads : r.Reads ⟨"eyJhbGciOiJwbGFpbiJ9", "aGk", ""⟩ c :=
    { header := ⟨_, "\x7b\"alg\":\"plain\"\x7d", [("alg", .string "plain")], by cbv,
        Bytes.toText?_ofText _, by cbv, rfl⟩
      critical := rfl
      alg := rfl
      known := rfl
      secured := fun hcode => absurd hcode (by decide)
      payload := by cbv
      signature := by cbv }
  have hdecode : (r.decode token (Entropy.scrambled 0)).1 =
      .ok ⟨c.header, Bytes.ofText "hi", none, none⟩ := by
    rw [decode_signed (CompactToken.parse_eq_signed.1 (by cbv)) (by decide)]
    exact settled_eq_ok.2 ⟨c, hreads, SecretKey.empty, rfl, rfl⟩
  refine ⟨rfl, _, hdecode, rfl, ?_⟩
  rintro ⟨k, hk, -⟩
  cases hk

end Recipient

end TokenSeal
