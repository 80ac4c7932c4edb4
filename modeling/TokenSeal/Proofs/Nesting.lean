import TokenSeal.Proofs.KeyOrder

/-! Opening a token and the one inside it at once is the same as opening one after the other. -/

namespace TokenSeal

namespace Recipient

/-- The same recipient, going on with a token inside an encrypted one or leaving it there. -/
def unwrapping (r : Recipient) (on : Bool) : Recipient :=
  { r with options := { r.options with unwrapNested := on } }

/-- When an encrypted token has a signed one inside that is no longer than a token may be, then
going on with it gives what decoding it by itself gives, success or failure, with the header of the
encrypted token around it. So every check of a signed token is made of one inside another. -/
theorem decode_nested_two_steps {r : Recipient} {token text : String} {p : SealedParts}
    {q : SignedParts} {outer : DecodedToken} {e : Entropy}
    (hsplit : splitDots token = [p.header, p.encryptedKey, p.iv, p.ciphertext, p.tag])
    (houter : ((r.unwrapping false).decode token e).1 = .ok outer)
    (hnested : outer.header.isNested = true) (hpayload : outer.payload = Bytes.ofText text)
    (hinner : splitDots text = [q.header, q.payload, q.signature])
    (hlen : text.utf8ByteSize ≤ r.options.maxTokenLength) (e' : Entropy) :
    ((r.unwrapping true).decode token e).1 =
      (r.decode text e').1.map fun inner => { inner with outerHeader := some outer.header } := by
  have houterLen : token.utf8ByteSize ≤ r.options.maxTokenLength :=
    length_of_decode (r := r.unwrapping false) houter
  -- Up to the question of what is inside, the two recipients do the same.
  have hsettle : ((Draw.ofExcept ((r.unwrapping true).readSealed p) >>=
      (r.unwrapping true).settleSealed) e).1 = .ok outer := by
    rw [decode_sealed (r := r.unwrapping false) hsplit houterLen] at houter
    obtain ⟨t, e₁, ht, hkept⟩ := Draw.bind_eq_ok.1 (Prod.ext houter rfl)
    have hflat : (r.unwrapping false).unnest t = pure t := rfl
    rw [hflat] at hkept
    cases hkept
    exact congrArg Prod.fst ht
  have hopen := openNested_signed (r := r.unwrapping true) hpayload hinner
  have hunnest : (r.unwrapping true).unnest outer =
      Draw.ofExcept ((r.unwrapping true).openNested outer) := by
    rw [unnest, if_pos ⟨rfl, hnested⟩]
  rw [decode_sealed (r := r.unwrapping true) hsplit houterLen,
    Draw.bind_ok (Prod.ext hsettle rfl), hunnest, Draw.ofExcept_apply, hopen,
    decode_signed hinner hlen]
  rfl

theorem decode_nested_two_steps_greeting :
    let r : Recipient := ⟨plainIssuer.options, .ok Algorithm.builtin, [sharedKey, zeroKey "a"]⟩
    let inner := greetingInput ++ "." ++ Issuer.segment greetingTag
    let token := sharedToken nestingHeader (Bytes.ofText inner) (Entropy.scrambled 0)
    ∃ outer, ((r.unwrapping false).decode token (Entropy.scrambled 1)).1 = .ok outer ∧
      outer.header.isNested = true ∧ outer.payload = Bytes.ofText inner ∧
      inner.utf8ByteSize ≤ r.options.maxTokenLength ∧
      ∃ t, ((r.unwrapping true).decode token (Entropy.scrambled 1)).1 = .ok t ∧
        t.payload = Bytes.ofText "hi" ∧ t.keyId = some "a" ∧ t.outerHeader = some outer.header := by
  intro r inner token
  have hsize : (Bytes.ofText inner).length ≤ 1000 := by
    rw [Bytes.length_ofText]
    exact utf8ByteSize_greeting
  have houter := decode_nesting hsize [zeroKey "a"] (Entropy.scrambled 0) (Entropy.scrambled 1)
  let p := (nestingMaking (Bytes.ofText inner) (Entropy.scrambled 0)).parts
  have hsplit : splitDots token = [p.header, p.encryptedKey, p.iv, p.ciphertext, p.tag] :=
    splitDots_nesting (Bytes.ofText inner) (Entropy.scrambled 0)
  let q : SignedParts :=
    ⟨greetingHeader.toSegment, Issuer.segment (Bytes.ofText "hi"), Issuer.segment greetingTag⟩
  have hparts : splitDots inner = [q.header, q.payload, q.signature] :=
    Issuer.splitDots_signed greetingHeader (Bytes.ofText "hi") greetingTag
  have hsign : greetingSigner.sign (Bytes.ofText (greetingHeader.toSegment ++ "." ++
      Issuer.segment (Bytes.ofText "hi"))) (Entropy.scrambled 1) =
        (.ok greetingTag, Entropy.scrambled 1) := rfl
  obtain ⟨t, ht, -, hpayload, -, hid, -⟩ := settled_of_sign (r := r) rfl signer_greeting hsign
    Header.isPlain_empty rfl rfl (by decide) (fun m hm => verifiesOwn_greeting signer_greeting hm)
    (by simp [r, greetingSigner])
  have hdecode : (r.decode inner (Entropy.scrambled 1)).1 = .ok t := by
    rw [decode_signed hparts length_greeting]
    exact ht
  have htwo := decode_nested_two_steps (r := r) hsplit houter isNested_nestingHeader rfl hparts
    length_greeting (Entropy.scrambled 1)
  rw [hdecode, map_ok] at htwo
  exact ⟨_, houter, isNested_nestingHeader, rfl, length_greeting, _, htwo, hpayload, hid "a" rfl,
    rfl⟩

/-- A signed token may say that it has a token inside, but is not taken any further. -/
theorem decode_signed_nested :
    let r : Recipient := ⟨plainIssuer.options, .ok Algorithm.builtin, []⟩
    let token := "eyJhbGciOiJub25lIiwiY3R5IjoiSldUIn0.ZXlKaGJHY2lPaUp1YjI1bEluMC5hR2su."
    let text := "eyJhbGciOiJub25lIn0.aGk."
    let e := Entropy.scrambled 0
    ∃ outer inner, ((r.unwrapping false).decode token e).1 = .ok outer ∧
      outer.header.isNested = true ∧ outer.payload = Bytes.ofText text ∧
      (r.decode text e).1 = .ok inner ∧
      ((r.unwrapping true).decode token e).1 ≠
        .ok { inner with outerHeader := some outer.header } := by
  intro r token text e
  let h := (Header.empty.insert "alg" (.string "none")).insert "cty" (.string "JWT")
  let p : SignedParts :=
    ⟨"eyJhbGciOiJub25lIiwiY3R5IjoiSldUIn0", "ZXlKaGJHY2lPaUp1YjI1bEluMC5hR2su", ""⟩
  let c : SignedReading := ⟨h, Algorithm.unsecured, Bytes.ofText text, []⟩
  have hsplit : splitDots token = [p.header, p.payload, p.signature] := by
    have htoken : token = p.header ++ "." ++ p.payload ++ "." ++ p.signature := by decide
    rw [htoken, splitDots_append, splitDots_append, splitDots_dotless (by decide),
      splitDots_dotless (by decide), splitDots_dotless (by decide)]
    rfl
  have hlen : token.utf8ByteSize ≤ r.options.maxTokenLength := by decide
  have hreads : ∀ on, (r.unwrapping on).Reads p c := fun on =>
    { header := ⟨_, "\x7b\"alg\":\"none\",\"cty\":\"JWT\"\x7d",
        [("alg", .string "none"), ("cty", .string "JWT")], by cbv, Bytes.toText?_ofText _, by cbv,
        rfl⟩
      critical := rfl
      alg := rfl
      known := rfl
      secured := fun _ => rfl
      payload := by cbv
      signature := by cbv }
  have hdecode : ∀ on, ((r.unwrapping on).decode token e).1 =
      .ok ⟨h, Bytes.ofText text, none, none⟩ := by
    intro on
    rw [decode_signed (r := r.unwrapping on) hsplit hlen]
    exact settled_eq_ok.2 ⟨c, hreads on, SecretKey.empty, rfl, rfl⟩
  have hinner : (r.decode text e).1.map (·.payload) = .ok (Bytes.ofText "hi") := by cbv
  obtain ⟨inner, hinner, -⟩ := map_eq_ok.1 hinner
  refine ⟨_, inner, hdecode false, rfl, rfl, hinner, fun hopened => ?_⟩
  rw [hdecode true] at hopened
  have houter := congrArg (Except.map DecodedToken.outerHeader) hopened
  cases houter

end Recipient

end TokenSeal
