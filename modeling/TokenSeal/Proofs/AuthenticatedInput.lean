import TokenSeal.Proofs.Unsealing

/-! The tag of a chained ciphertext authenticates one string, which is the same for who makes the tag
and for who asks for it. It has no marks between its parts, but its end tells how long its first
part is, and the second has always the same length: no two triples have the same string. A salt is
told from the code in front of it by the first zero byte. -/

namespace TokenSeal

/-! ### Strings that are hashed -/

theorem Sealer.macInput_inj {aad iv ciphertext aad' iv' ciphertext' : Bytes}
    (hiv : iv.length = iv'.length) (haad : aad.length < 2 ^ 61) (haad' : aad'.length < 2 ^ 61)
    (h : macInput aad iv ciphertext = macInput aad' iv' ciphertext') :
    aad = aad' ∧ iv = iv' ∧ ciphertext = ciphertext' := by
  have hwidth : (Bytes.ofNat 8 (8 * aad.length)).length =
      (Bytes.ofNat 8 (8 * aad'.length)).length := by
    rw [Bytes.length_ofNat, Bytes.length_ofNat]
  -- The end comes first: from it the length of the associated data is known.
  obtain ⟨hfront, hend⟩ := List.append_inj' h hwidth
  have hbits : 8 * aad.length = 8 * aad'.length := Bytes.ofNat_inj (by omega) (by omega) hend
  have hlength : aad.length = aad'.length := by omega
  rw [List.append_assoc, List.append_assoc] at hfront
  obtain ⟨hdata, hrest⟩ := List.append_inj hfront hlength
  obtain ⟨hvector, htext⟩ := List.append_inj hrest hiv
  exact ⟨hdata, hvector, htext⟩

theorem Bytes.append_zero_inj {a b s t : Bytes} (ha : 0 ∉ a) (hb : 0 ∉ b)
    (h : a ++ 0 :: s = b ++ 0 :: t) : a = b ∧ s = t := by
  induction a generalizing b with
  | nil =>
    cases b with
    | nil => exact ⟨rfl, (List.cons.inj h).2⟩
    | cons y b =>
      have hy : 0 = y := (List.cons.inj h).1
      exact absurd (hy ▸ List.mem_cons_self) hb
  | cons x a ih =>
    cases b with
    | nil =>
      have hx : x = 0 := (List.cons.inj h).1
      exact absurd (hx ▸ List.mem_cons_self) ha
    | cons y b =>
      obtain ⟨rfl, hrest⟩ := List.cons.inj h
      rw [List.mem_cons, not_or] at ha hb
      obtain ⟨rfl, hst⟩ := ih ha.2 hb.2 hrest
      exact ⟨rfl, hst⟩

theorem KeyWrapper.saltInput_inj {code code' : String} {salt salt' : Bytes}
    (hcode : 0 ∉ Bytes.ofText code) (hcode' : 0 ∉ Bytes.ofText code')
    (h : saltInput code salt = saltInput code' salt') : code = code' ∧ salt = salt' := by
  obtain ⟨htext, hsalt⟩ := Bytes.append_zero_inj hcode hcode' h
  exact ⟨Bytes.ofText_injective htext, hsalt⟩

/-! ### Making tags and asking for them -/

namespace Sealer

/-- The tag is cut from the HMAC of the string for the associated data, the IV and the
ciphertext. -/
def Tags (s : Sealer) (hash : HashId) (key aad : Bytes) (c : Sealed) : Prop :=
  c.tag = (hmac hash (macKey key) (macInput aad c.iv c.ciphertext)).take s.cipher.tagLength

section Chained

variable {s : Sealer} {key aad : Bytes} {bits : Nat} {hash : HashId} {c : Sealed}

theorem Tags.length (hs : s.HasKey key) (hc : s.cipher = .cbcHmac bits hash)
    (h : s.Tags hash key aad c) : c.tag.length = s.cipher.tagLength := by
  have hcuts := hs.cuts
  rw [hc] at hcuts
  rw [h, hc]
  exact length_chainedTag hcuts _ _ _ _

theorem HasKey.tags_of_sealWith (hs : s.HasKey key) (hc : s.cipher = .cbcHmac bits hash)
    {iv text : Bytes} (h : s.sealWith iv text aad = .ok c) : s.Tags hash key aad c := by
  obtain ⟨-, hiv, -⟩ := Sealer.sealWith_eq_ok h
  rw [← hiv] at h
  obtain ⟨-, ⟨bits', hc', -⟩ | ⟨bits', hash', hc', hseal⟩⟩ := hs.sealWith_eq_ok.1 h
  · rw [hc] at hc'
    cases hc'
  · rw [hc] at hc'
    cases hc'
    unfold sealChained at hseal
    dsimp only at hseal
    split at hseal
    · obtain ⟨htext, htag⟩ := Prod.mk.inj (Except.ok.inj hseal)
      rw [htext] at htag
      exact htag.symm
    · cases hseal

theorem HasKey.decryptInto_of_not_tags (hs : s.HasKey key) (hc : s.cipher = .cbcHmac bits hash)
    {buffer : Bytes} (hroom : c.ciphertext.length ≤ buffer.length) (h : ¬ s.Tags hash key aad c) :
    s.decryptInto c aad buffer = (.error .integrity, buffer) := by
  have hopen : s.openFor c aad buffer.length = .untouched .integrity := by
    by_cases hlengths : c.iv.length = s.cipher.ivLength ∧ c.tag.length = s.cipher.tagLength
    · obtain ⟨hiv, htag⟩ := hlengths
      have hwrong : chainedTag hash c.tag.length key aad c.iv c.ciphertext ≠ c.tag := by
        intro hmac
        rw [htag] at hmac
        exact h hmac.symm
      rw [hs.openFor_eq hiv htag hroom, hc]
      exact if_pos (.inl hwrong)
    · rw [not_and_or] at hlengths
      simp [openFor, hs.read, KeyMaterial.effective, hlengths]
  rw [decryptInto, hopen]

/-- Of two tags that are both right it makes no difference which is asked for. -/
theorem HasKey.openFor_congr (hs : s.HasKey key) (hc : s.cipher = .cbcHmac bits hash)
    {tag aad' : Bytes} (h : s.Tags hash key aad c) (h' : s.Tags hash key aad' { c with tag })
    (room : Nat) : s.openFor c aad room = s.openFor { c with tag } aad' room := by
  have htag := h.length hs hc
  have htag' : tag.length = s.cipher.tagLength := h'.length hs hc
  by_cases hiv : c.iv.length = s.cipher.ivLength
  · by_cases hroom : c.ciphertext.length ≤ room
    · have hmac : chainedTag hash c.tag.length key aad c.iv c.ciphertext = c.tag := by
        rw [htag]
        exact h.symm
      have hmac' : chainedTag hash tag.length key aad' c.iv c.ciphertext = tag := by
        rw [htag']
        exact h'.symm
      rw [hs.openFor_eq hiv htag hroom, hs.openFor_eq (c := { c with tag }) hiv htag' hroom, hc]
      simp only [openChained, hmac, hmac', ne_eq, not_true_eq_false, false_or]
    · have hshort := Nat.not_le.1 hroom
      simp [openFor, hs.read, KeyMaterial.effective, hiv, htag, htag', hshort]
  · simp [openFor, hs.read, KeyMaterial.effective, hiv]

/-- Sealing makes the tag of a string, and opening asks for the tag of that string and for nothing
else of the associated data. The strings of two triples are only the same if the triples are, and so
it is with salts that are put behind a code. -/
theorem chained_unambiguous (hs : s.HasKey key) (hc : s.cipher = .cbcHmac bits hash) :
    (∀ iv text aad c, s.sealWith iv text aad = .ok c →
      c.iv = iv ∧ c.iv.length = 16 ∧ s.Tags hash key aad c) ∧
    (∀ c aad buffer, c.ciphertext.length ≤ buffer.length → ¬ s.Tags hash key aad c →
      s.decryptInto c aad buffer = (.error .integrity, buffer)) ∧
    (∀ c aad tag aad' buffer, s.Tags hash key aad c → s.Tags hash key aad' { c with tag } →
      s.decryptInto { c with tag } aad' buffer = s.decryptInto c aad buffer) ∧
    (∀ aad iv ciphertext aad' iv' ciphertext', iv.length = 16 → iv'.length = 16 →
      aad.length < 2 ^ 61 → aad'.length < 2 ^ 61 →
      (macInput aad iv ciphertext = macInput aad' iv' ciphertext' ↔
        aad = aad' ∧ iv = iv' ∧ ciphertext = ciphertext')) ∧
    ∀ code code' salt salt', 0 ∉ Bytes.ofText code → 0 ∉ Bytes.ofText code' →
      (KeyWrapper.saltInput code salt = KeyWrapper.saltInput code' salt' ↔
        code = code' ∧ salt = salt') := by
  refine ⟨?_, ?_, ?_, ?_, ?_⟩
  · intro iv text aad c h
    obtain ⟨hlength, hiv, -⟩ := Sealer.sealWith_eq_ok h
    rw [hc] at hlength
    exact ⟨hiv, hiv ▸ hlength, hs.tags_of_sealWith hc h⟩
  · exact fun c aad buffer hroom h => hs.decryptInto_of_not_tags hc hroom h
  · intro c aad tag aad' buffer h h'
    rw [decryptInto, decryptInto, hs.openFor_congr hc h h']
  · intro aad iv ciphertext aad' iv' ciphertext' hiv hiv' haad haad'
    constructor
    · exact macInput_inj (hiv.trans hiv'.symm) haad haad'
    · rintro ⟨rfl, rfl, rfl⟩
      rfl
  · intro code code' salt salt' hcode hcode'
    constructor
    · exact KeyWrapper.saltInput_inj hcode hcode'
    · rintro ⟨rfl, rfl⟩
      rfl

end Chained

/-- A zero byte that passes from the IV to the associated data leaves the parts in a row as they
were, and yet another string is authenticated. -/
theorem chained_unambiguous_zeros :
    let s : Sealer := ⟨Recipient.zeroKey "a", .cipher "A128CBC-HS256" (.cbcHmac 256 .sha256),
      .cbcHmac 256 .sha256⟩
    (∃ c, s.sealWith (Bytes.zeros 16) [1] [2] = .ok c ∧ s.Tags .sha256 (Bytes.zeros 32) [2] c ∧
      s.decryptInto { c with tag := [] } [2] c.ciphertext = (.error .integrity, c.ciphertext)) ∧
    macInput [1] (Bytes.zeros 16) [0, 0] ≠ macInput [1, 0] (Bytes.zeros 16) [0] ∧
    KeyWrapper.saltInput "PBES2-HS256+A128KW" [] ≠
      KeyWrapper.saltInput "PBES2-HS256" (Bytes.ofText "+A128KW") := by
  intro s
  have hs : s.HasKey (Bytes.zeros 32) := {
    read := rfl
    cuts := (by decide : 256 / 16 ≤ HashId.sha256.size)
    gcm := fun _ h => by cases h
    chained := fun _ _ _ => by decide }
  obtain ⟨htags, hrefuses, -, hinput, hsalt⟩ := chained_unambiguous hs rfl
  have hiv : (Bytes.zeros 16).length = s.cipher.ivLength := rfl
  obtain ⟨c, hseal⟩ := hs.exists_sealWith hiv [1] [2]
  refine ⟨⟨c, hseal, (htags _ _ _ _ hseal).2.2, hrefuses _ _ _ (Nat.le_refl _) ?_⟩, ?_, ?_⟩
  · intro h
    have hlength : 0 = 16 := h.length hs rfl
    exact absurd hlength (by decide)
  · rw [ne_eq, hinput _ _ _ _ _ _ rfl rfl (by decide) (by decide)]
    decide
  · rw [ne_eq, hsalt _ _ _ _ (by decide) (by decide)]
    decide

end Sealer

end TokenSeal
