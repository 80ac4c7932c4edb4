import TokenSeal.Proofs.LastSegment
import TokenSeal.Proofs.WireFormat

/-! Content is opened if it is what the opened text is sealed to, and not otherwise. So to open is
the inverse of to seal: there is one ciphertext and one tag for a text, and nothing else opens. -/

namespace TokenSeal

namespace Sealer

/-! ### The two ciphers over plain keys -/

section Plain

variable {key iv text aad ciphertext tag : Bytes}

theorem openGcm?_eq_some : openGcm? key iv ciphertext tag aad = some text ↔
    iv.length = Gcm.ivLength ∧ sealGcm key iv text aad = .ok (ciphertext, tag) := by
  constructor
  · intro h
    unfold openGcm? at h
    split at h
    · next hfit =>
      obtain ⟨hiv, -, hkey⟩ := hfit
      have hseal := Gcm.encrypt_of_decrypt? h
      exact ⟨hiv, by rw [sealGcm, if_pos hkey, hseal]⟩
    · cases h
  · rintro ⟨hiv, h⟩
    exact (openGcm?_sealGcm hiv h).1

theorem openGcm?_eq_none (hiv : iv.length = Gcm.ivLength) (htag : tag.length = Gcm.tagLength)
    (hkey : Aes.isKeyLength key.length = true) :
    openGcm? key iv ciphertext tag aad = none ↔
      Gcm.tagOf (.ofKey key) iv aad ciphertext ≠ tag := by
  rw [openGcm?, if_pos ⟨hiv, htag, hkey⟩, Gcm.decrypt?]
  by_cases h : tag = Gcm.tagOf (.ofKey key) iv aad ciphertext
  · simp [h]
  · simp [h, Ne.symm h]

theorem sealChained_of_unpad? {h : HashId} {length : Nat}
    (hkey : Aes.isKeyLength (textKey key).length = true) (hiv : iv.length = Cbc.blockLength)
    (hdvd : 16 ∣ ciphertext.length) (htag : chainedTag h length key aad iv ciphertext = tag)
    (htext : Cbc.unpad? (Cbc.decryptPadded (.ofKey (textKey key)) iv ciphertext) = some text) :
    sealChained h length key iv text aad = .ok (ciphertext, tag) := by
  have hseal := Cbc.encrypt_of_unpad? (textKey key) hiv hdvd htext
  simp only [sealChained, hkey, if_true, hseal, htag]

theorem unpad?_of_sealChained {h : HashId} {length : Nat} (hiv : iv.length = Cbc.blockLength)
    (hseal : sealChained h length key iv text aad = .ok (ciphertext, tag)) :
    Cbc.unpad? (Cbc.decryptPadded (.ofKey (textKey key)) iv ciphertext) = some text := by
  unfold sealChained at hseal
  dsimp only at hseal
  split at hseal
  · have htext : Cbc.encrypt (.ofKey (textKey key)) iv text = ciphertext :=
      congrArg Prod.fst (Except.ok.inj hseal)
    rw [← htext, Cbc.decryptPadded_encrypt _ _ hiv, Cbc.unpad?_pad]
  · cases hseal

end Plain

/-! ### Keys that fit -/

/-- The sealer has a key of the length that its cipher takes. -/
structure HasKey (s : Sealer) (key : Bytes) : Prop where
  read : s.key.read = .ok (.symmetric key)
  cuts : s.cipher.CutsTag
  gcm : ∀ bits, s.cipher = .gcm bits → Aes.isKeyLength key.length = true
  chained : ∀ bits hash, s.cipher = .cbcHmac bits hash →
    Aes.isKeyLength (textKey key).length = true

section Fitting

variable {k : SecretKey} {code : String} {bits : Nat} {hash : HashId}

theorem exists_key {cipher : ContentCipher} (hk : k.Suits (.cipher code cipher)) :
    ∃ key, k.read = .ok (.symmetric key) ∧ 8 * key.length = cipher.keyBits := by
  obtain ⟨m, -, hread⟩ := SecretKey.read_of_live hk.1
  obtain ⟨key, rfl, hsize⟩ := hk.symmetric hread rfl
  exact ⟨key, hread, Algorithm.isLegalSize_exact.1 hsize⟩

theorem hasKey_gcm (hk : k.Suits (.cipher code (.gcm bits)))
    (hlength : Aes.isKeyLength (bits / 8) = true) :
    ∃ key, HasKey ⟨k, .cipher code (.gcm bits), .gcm bits⟩ key := by
  obtain ⟨key, hread, hbits⟩ := exists_key hk
  have hbytes : key.length = bits / 8 := by
    simp only [ContentCipher.keyBits] at hbits
    omega
  refine ⟨key, hread, trivial, fun _ _ => ?_, fun _ _ hc => ?_⟩
  · rw [hbytes, hlength]
  · cases hc

theorem hasKey_cbcHmac (hk : k.Suits (.cipher code (.cbcHmac bits hash)))
    (hcuts : bits / 16 ≤ hash.size) (heven : bits % 16 = 0)
    (hlength : Aes.isKeyLength (bits / 16) = true) :
    ∃ key, HasKey ⟨k, .cipher code (.cbcHmac bits hash), .cbcHmac bits hash⟩ key := by
  obtain ⟨key, hread, hbits⟩ := exists_key hk
  have hbytes : (textKey key).length = bits / 16 := by
    simp only [ContentCipher.keyBits] at hbits
    rw [textKey, List.length_drop]
    omega
  refine ⟨key, hread, hcuts, fun _ hc => ?_, fun _ _ _ => ?_⟩
  · cases hc
  · rw [hbytes, hlength]

theorem exists_hasKey {a : Algorithm} (ha : a ∈ Algorithm.builtin)
    (hfamily : a.family = .contentEncryption) (hk : k.Suits a) :
    ∃ cipher key, a.method = .contentEncryption cipher ∧ HasKey ⟨k, a, cipher⟩ key := by
  have hmem := (Algorithm.mem_of_family ha).1 hfamily
  simp only [Algorithm.contentCiphers, List.mem_cons, List.not_mem_nil, or_false] at hmem
  rcases hmem with rfl | rfl | rfl | rfl | rfl | rfl
  · exact ⟨_, (hasKey_gcm hk rfl).imp fun _ hs => ⟨rfl, hs⟩⟩
  · exact ⟨_, (hasKey_gcm hk rfl).imp fun _ hs => ⟨rfl, hs⟩⟩
  · exact ⟨_, (hasKey_gcm hk rfl).imp fun _ hs => ⟨rfl, hs⟩⟩
  · exact ⟨_, (hasKey_cbcHmac hk (by decide) rfl rfl).imp fun _ hs => ⟨rfl, hs⟩⟩
  · exact ⟨_, (hasKey_cbcHmac hk (by decide) rfl rfl).imp fun _ hs => ⟨rfl, hs⟩⟩
  · exact ⟨_, (hasKey_cbcHmac hk (by decide) rfl rfl).imp fun _ hs => ⟨rfl, hs⟩⟩

end Fitting

/-! ### What can come of opening -/

/-- Why a buffer is left as it was. A ciphertext that cannot be right is not even deciphered. -/
inductive Refuses (s : Sealer) (c : Sealed) (aad : Bytes) (room : Nat) : Fault → Prop
  | disposed (h : s.key.isDisposed = true) : Refuses s c aad room (.disposed .secretKey)
  | ivLength (h : c.iv.length ≠ s.cipher.ivLength) : Refuses s c aad room .integrity
  | tagLength (h : c.tag.length ≠ s.cipher.tagLength) : Refuses s c aad room .integrity
  | room (h : room < c.ciphertext.length) :
      Refuses s c aad room (.format (.outputRoom room c.ciphertext.length))
  | mac {bits : Nat} {hash : HashId} {key : Bytes} (hc : s.cipher = .cbcHmac bits hash)
      (hkey : s.key.read = .ok (.symmetric key))
      (h : chainedTag hash s.cipher.tagLength key aad c.iv c.ciphertext ≠ c.tag) :
      Refuses s c aad room .integrity
  | empty {bits : Nat} {hash : HashId} (hc : s.cipher = .cbcHmac bits hash)
      (h : c.ciphertext = []) : Refuses s c aad room .integrity
  | unaligned {bits : Nat} {hash : HashId} (hc : s.cipher = .cbcHmac bits hash)
      (h : c.ciphertext.length % Cbc.blockLength ≠ 0) : Refuses s c aad room .integrity

/-- Why a buffer is filled with zeros: what was written to it is not to be seen. -/
inductive Wipes (s : Sealer) (c : Sealed) (aad : Bytes) : Prop
  | tag {bits : Nat} {key : Bytes} (hc : s.cipher = .gcm bits)
      (hkey : s.key.read = .ok (.symmetric key))
      (h : Gcm.tagOf (.ofKey key) c.iv aad c.ciphertext ≠ c.tag) : Wipes s c aad
  | padding {bits : Nat} {hash : HashId} {key : Bytes} (hc : s.cipher = .cbcHmac bits hash)
      (hkey : s.key.read = .ok (.symmetric key))
      (h : Cbc.unpad? (Cbc.decryptPadded (.ofKey (textKey key)) c.iv c.ciphertext) = none) :
      Wipes s c aad

section Opening

variable {s : Sealer} {key : Bytes} {c : Sealed} {aad : Bytes} {room : Nat}

theorem HasKey.isDisposed (hs : s.HasKey key) : s.key.isDisposed = false :=
  SecretKey.isDisposed_of_read hs.read

theorem HasKey.unique (hs : s.HasKey key) {key' : Bytes}
    (h : s.key.read = .ok (.symmetric key')) : key' = key := by
  have hsame := h.symm.trans hs.read
  simpa using hsame

theorem HasKey.sealWith_eq_ok (hs : s.HasKey key) {text : Bytes} :
    s.sealWith c.iv text aad = .ok c ↔ c.iv.length = s.cipher.ivLength ∧
      ((∃ bits, s.cipher = .gcm bits ∧ sealGcm key c.iv text aad = .ok (c.ciphertext, c.tag)) ∨
        ∃ bits hash, s.cipher = .cbcHmac bits hash ∧
          sealChained hash s.cipher.tagLength key c.iv text aad = .ok (c.ciphertext, c.tag)) := by
  constructor
  · intro h
    obtain ⟨hiv, -, m, key', hm, heff, hseal⟩ := Sealer.sealWith_eq_ok h
    obtain rfl : .symmetric key = m := Except.ok.inj (hs.read.symm.trans hm)
    cases heff
    exact ⟨hiv, hseal⟩
  · rintro ⟨hiv, ⟨bits, hc, hseal⟩ | ⟨bits, hash, hc, hseal⟩⟩
    · rw [hc] at hiv
      simp [sealWith, hs.read, KeyMaterial.effective, hc, hiv, hseal]
    · rw [hc] at hiv hseal
      simp [sealWith, hs.read, KeyMaterial.effective, hc, hiv, hseal]

theorem HasKey.exists_sealWith (hs : s.HasKey key) {iv : Bytes}
    (hiv : iv.length = s.cipher.ivLength) (text aad : Bytes) :
    ∃ c, s.sealWith iv text aad = .ok c := by
  cases hc : s.cipher with
  | gcm bits =>
    obtain ⟨ciphertext, tag, hseal⟩ :
        ∃ ciphertext tag, sealGcm key iv text aad = .ok (ciphertext, tag) :=
      ⟨_, _, if_pos (hs.gcm bits hc)⟩
    let c : Sealed := ⟨ciphertext, iv, tag⟩
    exact ⟨c, (hs.sealWith_eq_ok (c := c)).2 ⟨hiv, .inl ⟨bits, hc, hseal⟩⟩⟩
  | cbcHmac bits hash =>
    obtain ⟨ciphertext, tag, hseal⟩ : ∃ ciphertext tag,
        sealChained hash s.cipher.tagLength key iv text aad = .ok (ciphertext, tag) :=
      ⟨_, _, if_pos (hs.chained bits hash hc)⟩
    let c : Sealed := ⟨ciphertext, iv, tag⟩
    exact ⟨c, (hs.sealWith_eq_ok (c := c)).2 ⟨hiv, .inr ⟨bits, hash, hc, hseal⟩⟩⟩

theorem HasKey.openFor_eq (hs : s.HasKey key) (hiv : c.iv.length = s.cipher.ivLength)
    (htag : c.tag.length = s.cipher.tagLength) (hroom : c.ciphertext.length ≤ room) :
    s.openFor c aad room =
      match s.cipher with
      | .gcm _ => openGcm key c aad
      | .cbcHmac _ h => openChained h key c aad := by
  have hshort : ¬ room < c.ciphertext.length := Nat.not_lt.2 hroom
  cases hc : s.cipher with
  | gcm bits =>
    rw [hc] at hiv htag
    simp [openFor, hs.read, KeyMaterial.effective, hc, hiv, htag, hshort]
  | cbcHmac bits hash =>
    rw [hc] at hiv htag
    simp [openFor, hs.read, KeyMaterial.effective, hc, hiv, htag, hshort]

/-- The three things that are asked of a chained ciphertext before it is deciphered. -/
def Checks (h : HashId) (key : Bytes) (c : Sealed) (aad : Bytes) : Prop :=
  chainedTag h c.tag.length key aad c.iv c.ciphertext = c.tag ∧ c.ciphertext ≠ [] ∧
    c.ciphertext.length % Cbc.blockLength = 0

theorem HasKey.not_refuses (hs : s.HasKey key) (hiv : c.iv.length = s.cipher.ivLength)
    (htag : c.tag.length = s.cipher.tagLength) (hroom : c.ciphertext.length ≤ room)
    (hchecks : ∀ bits hash, s.cipher = .cbcHmac bits hash → Checks hash key c aad)
    (cause : Fault) : ¬ s.Refuses c aad room cause := by
  intro h
  cases h with
  | disposed h => simp [hs.isDisposed] at h
  | ivLength h => exact h hiv
  | tagLength h => exact h htag
  | room h => omega
  | mac hc hkey h =>
    obtain rfl := hs.unique hkey
    exact h (htag ▸ (hchecks _ _ hc).1)
  | empty hc h => exact (hchecks _ _ hc).2.1 h
  | unaligned hc h => exact h (hchecks _ _ hc).2.2

theorem HasKey.openFor_gcm (hs : s.HasKey key) {bits : Nat} (hc : s.cipher = .gcm bits)
    (hiv : c.iv.length = s.cipher.ivLength) (htag : c.tag.length = s.cipher.tagLength)
    (hroom : c.ciphertext.length ≤ room) :
    (s.Wipes c aad ∧ s.openFor c aad room = .wiped) ∨
      ∃ text, s.sealWith c.iv text aad = .ok c ∧
        s.openFor c aad room = .opened text text.length := by
  have hopenFor : s.openFor c aad room = openGcm key c aad := by
    rw [hs.openFor_eq hiv htag hroom, hc]
  have hiv' : c.iv.length = Gcm.ivLength := by rw [hiv, hc]; rfl
  have htag' : c.tag.length = Gcm.tagLength := by rw [htag, hc]; rfl
  cases hopen : openGcm? key c.iv c.ciphertext c.tag aad with
  | none =>
    have hwrong := (openGcm?_eq_none hiv' htag' (hs.gcm bits hc)).1 hopen
    exact .inl ⟨.tag hc hs.read hwrong, by rw [hopenFor, openGcm, hopen]⟩
  | some text =>
    obtain ⟨-, hseal⟩ := openGcm?_eq_some.1 hopen
    refine .inr ⟨text, hs.sealWith_eq_ok.2 ⟨hiv, .inl ⟨bits, hc, hseal⟩⟩, ?_⟩
    rw [hopenFor, openGcm, hopen]

theorem HasKey.openFor_chained (hs : s.HasKey key) {bits : Nat} {hash : HashId}
    (hc : s.cipher = .cbcHmac bits hash) (hiv : c.iv.length = s.cipher.ivLength)
    (htag : c.tag.length = s.cipher.tagLength) (hroom : c.ciphertext.length ≤ room)
    (hchecks : Checks hash key c aad) :
    (s.Wipes c aad ∧ s.openFor c aad room = .wiped) ∨
      ∃ text written, s.sealWith c.iv text aad = .ok c ∧ text <+: written ∧
        s.openFor c aad room = .opened written text.length := by
  have hkey := hs.chained bits hash hc
  have hiv' : c.iv.length = 16 := by rw [hiv, hc]; rfl
  obtain ⟨hmac, hne, hmod⟩ := hchecks
  have hdvd : 16 ∣ c.ciphertext.length := Nat.dvd_of_mod_eq_zero hmod
  have hgood : ¬ (chainedTag hash c.tag.length key aad c.iv c.ciphertext ≠ c.tag ∨
      c.ciphertext = [] ∨ c.ciphertext.length % Cbc.blockLength ≠ 0) := by
    simp [hmac, hne, hmod]
  rw [hs.openFor_eq hiv htag hroom, hc]
  dsimp only
  rw [openChained, if_neg hgood, if_pos hkey]
  dsimp only
  cases htext : Cbc.unpad? (Cbc.decryptPadded (.ofKey (textKey key)) c.iv c.ciphertext) with
  | none => exact .inl ⟨.padding hc hs.read htext, rfl⟩
  | some text =>
    -- Only the padding of the text itself is taken off, so the text seals to the ciphertext again.
    have hlength := Cbc.length_decryptPadded (.ofKey (textKey key)) hiv' hdvd
    have hpad := Cbc.pad_of_unpad? (hlength ▸ hdvd) htext
    have hseal := sealChained_of_unpad? hkey hiv' hdvd (htag ▸ hmac) htext
    refine .inr ⟨text, _, hs.sealWith_eq_ok.2 ⟨hiv, .inr ⟨bits, hash, hc, hseal⟩⟩, ?_, rfl⟩
    rw [← hpad]
    exact List.prefix_append _ _

/-- All that can come of opening: the buffer is left alone for one of the reasons for that, or it is
wiped for one of the others, or the text that the ciphertext was made of is written to it. -/
theorem HasKey.openFor_cases (hs : s.HasKey key) (c : Sealed) (aad : Bytes) (room : Nat) :
    (∃ cause, s.Refuses c aad room cause ∧ s.openFor c aad room = .untouched cause) ∨
    ((∀ cause, ¬ s.Refuses c aad room cause) ∧
      ((s.Wipes c aad ∧ s.openFor c aad room = .wiped) ∨
        ∃ text written, s.sealWith c.iv text aad = .ok c ∧ text <+: written ∧
          s.openFor c aad room = .opened written text.length)) := by
  -- Reasons to leave the buffer alone overlap; the one that counts is the first in this order.
  by_cases hlengths : c.iv.length ≠ s.cipher.ivLength ∨ c.tag.length ≠ s.cipher.tagLength
  · have hopen : s.openFor c aad room = .untouched .integrity := by
      simp [openFor, hs.read, KeyMaterial.effective, hlengths]
    rcases hlengths with h | h
    · exact .inl ⟨_, .ivLength h, hopen⟩
    · exact .inl ⟨_, .tagLength h, hopen⟩
  obtain ⟨hiv, htag⟩ : c.iv.length = s.cipher.ivLength ∧ c.tag.length = s.cipher.tagLength := by
    simpa using hlengths
  by_cases hshort : room < c.ciphertext.length
  · refine .inl ⟨_, .room hshort, ?_⟩
    simp [openFor, hs.read, KeyMaterial.effective, hiv, htag, hshort]
  have hroom := Nat.not_lt.1 hshort
  cases hc : s.cipher with
  | gcm bits =>
    refine .inr ⟨hs.not_refuses hiv htag hroom fun bits' hash hc' => ?_, ?_⟩
    · simp [hc] at hc'
    obtain hwiped | ⟨text, hseal, hopen⟩ := hs.openFor_gcm hc hiv htag hroom
    · exact .inl hwiped
    · exact .inr ⟨text, text, hseal, List.prefix_refl text, hopen⟩
  | cbcHmac bits hash =>
    by_cases hbad : chainedTag hash c.tag.length key aad c.iv c.ciphertext ≠ c.tag ∨
        c.ciphertext = [] ∨ c.ciphertext.length % Cbc.blockLength ≠ 0
    · have hopen : s.openFor c aad room = .untouched .integrity := by
        rw [hs.openFor_eq hiv htag hroom, hc]
        exact if_pos hbad
      rcases hbad with h | h | h
      · exact .inl ⟨_, .mac hc hs.read (htag ▸ h), hopen⟩
      · exact .inl ⟨_, .empty hc h, hopen⟩
      · exact .inl ⟨_, .unaligned hc h, hopen⟩
    · have hchecks : Checks hash key c aad := by simpa [Checks] using hbad
      refine .inr ⟨hs.not_refuses hiv htag hroom fun bits' hash' hc' => ?_,
        hs.openFor_chained hc hiv htag hroom hchecks⟩
      rw [hc, ContentCipher.cbcHmac.injEq] at hc'
      exact hc'.2 ▸ hchecks

/-! ### Opening with a key that fits -/

theorem Refuses.eq_integrity {cause : Fault} (h : s.Refuses c aad room cause)
    (hlive : s.key.isDisposed = false) (hroom : c.ciphertext.length ≤ room) :
    cause = .integrity := by
  cases h with
  | disposed h =>
    rw [hlive] at h
    cases h
  | room h => omega
  | _ => rfl

theorem HasKey.not_wipes (hs : s.HasKey key) {text : Bytes}
    (hseal : s.sealWith c.iv text aad = .ok c) : ¬ s.Wipes c aad := by
  obtain ⟨hiv, hseal⟩ := hs.sealWith_eq_ok.1 hseal
  intro h
  cases h with
  | @tag bits key' hc hkey h =>
    obtain rfl := hs.unique hkey
    obtain ⟨bits', hc', hseal⟩ | ⟨bits', hash, hc', -⟩ := hseal
    · have hiv' : c.iv.length = Gcm.ivLength := by rw [hiv, hc]; rfl
      exact h (tag_of_openGcm? (openGcm?_sealGcm hiv' hseal).1).symm
    · rw [hc] at hc'
      cases hc'
  | @padding bits hash key' hc hkey h =>
    obtain rfl := hs.unique hkey
    obtain ⟨bits', hc', -⟩ | ⟨bits', hash', hc', hseal⟩ := hseal
    · rw [hc] at hc'
      cases hc'
    · have hiv' : c.iv.length = Cbc.blockLength := by rw [hiv, hc]; rfl
      have hsome := unpad?_of_sealChained hiv' hseal
      rw [h] at hsome
      cases hsome

theorem HasKey.decrypt_cases (hs : s.HasKey key) (c : Sealed) (aad : Bytes) :
    (∃ text, s.sealWith c.iv text aad = .ok c ∧ s.decrypt c aad = .ok text) ∨
      s.decrypt c aad = .error .integrity := by
  obtain ⟨cause, hcause, hopen⟩ | ⟨-, hopened⟩ := hs.openFor_cases c aad c.ciphertext.length
  · rw [hcause.eq_integrity hs.isDisposed (Nat.le_refl _)] at hopen
    exact .inr (by simp [decrypt, decryptInto, Bytes.length_zeros, hopen, Except.map])
  obtain ⟨-, hopen⟩ | ⟨text, written, hseal, -⟩ := hopened
  · exact .inr (by simp [decrypt, decryptInto, Bytes.length_zeros, hopen, Except.map])
  · exact .inl ⟨text, hseal, decrypt_of_sealWith hs.cuts hseal⟩

theorem HasKey.decrypt_eq_ok (hs : s.HasKey key) {text : Bytes} :
    s.decrypt c aad = .ok text ↔ s.sealWith c.iv text aad = .ok c := by
  constructor
  · intro h
    obtain ⟨text', hseal, hopen⟩ | hfault := hs.decrypt_cases c aad
    · rw [h, Except.ok.injEq] at hopen
      exact hopen ▸ hseal
    · rw [h] at hfault
      cases hfault
  · exact decrypt_of_sealWith hs.cuts

theorem HasKey.decrypt_eq_integrity (hs : s.HasKey key)
    (h : ∀ text, s.sealWith c.iv text aad ≠ .ok c) : s.decrypt c aad = .error .integrity := by
  obtain ⟨text, hseal, -⟩ | hfault := hs.decrypt_cases c aad
  · exact absurd hseal (h text)
  · exact hfault

theorem HasKey.not_sealed (hs : s.HasKey key)
    (h : (∃ cause, s.Refuses c aad c.ciphertext.length cause) ∨ s.Wipes c aad) (text : Bytes) :
    s.sealWith c.iv text aad ≠ .ok c := by
  intro hseal
  obtain ⟨cause, hcause⟩ | hwipes := h
  · obtain ⟨written, hopened, -⟩ := openFor_of_sealWith hs.cuts hseal
    obtain ⟨cause', -, hopen⟩ | ⟨hrefuses, -⟩ := hs.openFor_cases c aad c.ciphertext.length
    · rw [hopened] at hopen
      cases hopen
    · exact hrefuses cause hcause
  · exact hs.not_wipes hseal hwipes

/-- For an IV, a text and associated data there is one ciphertext with one tag, and they open to that
text again. -/
theorem HasKey.sealWith_opens (hs : s.HasKey key) {iv : Bytes}
    (hiv : iv.length = s.cipher.ivLength) (text aad : Bytes) :
    ∃ c, s.sealWith iv text aad = .ok c ∧ c.iv = iv ∧
      c.ciphertext.length = s.cipher.ciphertextLength text.length ∧
        c.tag.length = s.cipher.tagLength ∧ s.decrypt c aad = .ok text := by
  obtain ⟨c, hseal⟩ := hs.exists_sealWith hiv text aad
  obtain ⟨-, hsame, -⟩ := Sealer.sealWith_eq_ok hseal
  obtain ⟨-, htag, hciphertext⟩ := lengths_of_sealWith hs.cuts hseal
  exact ⟨c, hseal, hsame, hciphertext, htag, decrypt_of_sealWith hs.cuts hseal⟩

end Opening

/-- What a key of a legal size opens is exactly what it seals. A text is sealed to a ciphertext and a
tag of the lengths that are told, and they open to it again; what opens is what the opened text is
sealed to, so that one tag goes with a ciphertext. All else is refused, and in one way: wrong lengths
of IV or tag, a chained ciphertext that is empty or not in blocks, a tag that is not that of the
ciphertext, and padding that is not that of a text. -/
theorem decrypt_inverse_sealWith {a : Algorithm} {k : SecretKey} (ha : a ∈ Algorithm.builtin)
    (hfamily : a.family = .contentEncryption) (hk : k.Suits a) :
    ∃ s, Sealer.bind k a = .ok s ∧
      (∀ iv text aad, iv.length = s.cipher.ivLength →
        ∃ c, s.sealWith iv text aad = .ok c ∧ c.iv = iv ∧
          c.ciphertext.length = s.cipher.ciphertextLength text.length ∧
            c.tag.length = s.cipher.tagLength ∧ s.decrypt c aad = .ok text) ∧
      (∀ c aad text, s.decrypt c aad = .ok text ↔ s.sealWith c.iv text aad = .ok c) ∧
      (∀ ciphertext iv aad tag tag' text text', s.decrypt ⟨ciphertext, iv, tag⟩ aad = .ok text →
        s.decrypt ⟨ciphertext, iv, tag'⟩ aad = .ok text' → tag = tag') ∧
      (∀ c aad, (∀ text, s.sealWith c.iv text aad ≠ .ok c) →
        s.decrypt c aad = .error .integrity) ∧
      ∀ c aad, (∃ cause, s.Refuses c aad c.ciphertext.length cause) ∨ s.Wipes c aad →
        s.decrypt c aad = .error .integrity := by
  obtain ⟨cipher, key, hmethod, hs⟩ := exists_hasKey ha hfamily hk
  refine ⟨⟨k, a, cipher⟩, Sealer.bind_eq_ok.2 ⟨cipher, hmethod, hk, rfl⟩, ?_, ?_, ?_, ?_, ?_⟩
  · exact fun iv text aad hiv => hs.sealWith_opens hiv text aad
  · exact fun c aad text => hs.decrypt_eq_ok
  · intro ciphertext iv aad tag tag' text text' h h'
    exact (tag_unique h h').symm
  · exact fun c aad => hs.decrypt_eq_integrity
  · exact fun c aad h => hs.decrypt_eq_integrity (hs.not_sealed h)

/-- The key of zeros seals a greeting and opens it again, but not with a tag that was cut short, and
it opens nothing that is empty. -/
theorem decrypt_inverse_sealWith_zeros :
    let a : Algorithm := .cipher "A128CBC-HS256" (.cbcHmac 256 .sha256)
    ∃ s c, Sealer.bind (Recipient.zeroKey "a") a = .ok s ∧
      s.sealWith (Bytes.zeros 16) (Bytes.ofText "hi") [] = .ok c ∧
      s.decrypt c [] = .ok (Bytes.ofText "hi") ∧
      s.decrypt { c with tag := c.tag.take 15 } [] = .error .integrity ∧
      s.decrypt { c with ciphertext := [] } [] = .error .integrity := by
  intro a
  have hk : (Recipient.zeroKey "a").Suits a := ⟨rfl, rfl, by decide⟩
  obtain ⟨s, hs, hseals, -, -, -, hrefuses⟩ :=
    decrypt_inverse_sealWith (by decide : a ∈ Algorithm.builtin) rfl hk
  have hcipher : s.cipher = .cbcHmac 256 .sha256 := by cases hs; rfl
  have hiv : (Bytes.zeros 16).length = s.cipher.ivLength := by rw [hcipher]; rfl
  obtain ⟨c, hseal, -, -, htag, hopen⟩ := hseals _ (Bytes.ofText "hi") [] hiv
  refine ⟨s, c, hs, hseal, hopen, hrefuses _ _ (.inl ⟨_, .tagLength ?_⟩),
    hrefuses _ _ (.inl ⟨_, .empty hcipher rfl⟩)⟩
  rw [hcipher] at htag ⊢
  rw [List.length_take, htag]
  decide

end Sealer

end TokenSeal
