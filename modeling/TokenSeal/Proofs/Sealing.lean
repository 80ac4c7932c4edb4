import TokenSeal.Proofs.Binding
import TokenSeal.Proofs.Cipher
import TokenSeal.Proofs.Hash
import TokenSeal.Proofs.Inflate
import TokenSeal.Token.Decode

/-! Content is opened as it was sealed, and expanded as it was compressed. -/

namespace TokenSeal

theorem Compressor.inflate_of_finished {limit : Nat} {stream data : Bytes}
    (h : ∀ bound, data.length ≤ bound →
      Deflate.inflateWithin bound stream = (data, .finished stream.length))
    (hdata : data.length ≤ limit) : inflate limit stream = .ok data := by
  have hbound : data.length ≤ inflateLimit limit := by
    have hdiv := Nat.div_add_mod limit Deflate.windowSize
    have hmod := Nat.mod_lt limit (show 0 < Deflate.windowSize by decide)
    rw [inflateLimit, Nat.mul_add]
    omega
  simp [inflate, h _ hbound, Nat.not_lt.2 hdata]

theorem Compressor.decompress_compress {c : Compressor} {data : Bytes} {deflate : Bytes → Bytes}
    (hdeflate : Deflate.Restores deflate) (h : data.length ≤ c.limit) :
    c.decompress (c.compress data deflate) = .ok data := by
  cases hm : c.method with
  | identity => simp [decompress, compress, hm, Nat.not_lt.2 h]
  | deflate =>
    simpa [decompress, compress, hm] using
      inflate_of_finished (fun _ => Deflate.inflateWithin_of_reads (hdeflate data)) h

/-- The tag is no longer than the digest it is cut from. -/
def ContentCipher.CutsTag : ContentCipher → Prop
  | gcm _ => True
  | cbcHmac bits h => bits / 16 ≤ h.size

namespace Sealer

theorem length_chainedTag {h : HashId} {length : Nat} (hle : length ≤ h.size)
    (key aad iv ciphertext : Bytes) :
    (chainedTag h length key aad iv ciphertext).length = length := by
  rw [chainedTag, List.length_take, length_hmac]
  omega

theorem openGcm?_sealGcm {key iv text aad ciphertext tag : Bytes}
    (hiv : iv.length = Gcm.ivLength) (h : sealGcm key iv text aad = .ok (ciphertext, tag)) :
    openGcm? key iv ciphertext tag aad = some text ∧ tag.length = Gcm.tagLength := by
  unfold sealGcm at h
  split at h
  · next hkey =>
    rw [Except.ok.injEq] at h
    have htag : tag.length = Gcm.tagLength := by
      rw [show tag = (Gcm.encrypt (.ofKey key) iv aad text).2 by rw [h]]
      exact Gcm.length_tagOf _ _ _ _
    have hopen := Gcm.decrypt?_encrypt (.ofKey key) iv aad text
    rw [h] at hopen
    exact ⟨by rw [openGcm?, if_pos ⟨hiv, htag, hkey⟩, hopen], htag⟩
  · cases h

theorem openChained_sealChained {h : HashId} {length : Nat} {key iv text aad ciphertext tag : Bytes}
    (hlength : length ≤ h.size) (hiv : iv.length = Cbc.blockLength)
    (hseal : sealChained h length key iv text aad = .ok (ciphertext, tag)) :
    openChained h key ⟨ciphertext, iv, tag⟩ aad = .opened (Cbc.pad text) text.length ∧
      tag.length = length := by
  unfold sealChained at hseal
  dsimp only at hseal
  split at hseal
  · next hkey =>
    rw [Except.ok.injEq, Prod.mk.injEq] at hseal
    obtain ⟨htext, htag⟩ := hseal
    rw [htext] at htag
    have hlen : tag.length = length := by
      rw [← htag]
      exact length_chainedTag hlength _ _ _ _
    have hsize : ciphertext.length = (text.length / 16 + 1) * 16 := by
      rw [← htext]
      exact Cbc.length_encrypt _ _ _
    have hne : ciphertext ≠ [] := by
      rintro rfl
      simp at hsize
    have hback : Cbc.decryptPadded (.ofKey (textKey key)) iv ciphertext = Cbc.pad text := by
      rw [← htext]
      exact Cbc.decryptPadded_encrypt _ _ hiv
    refine ⟨?_, hlen⟩
    rw [openChained]
    simp only [hlen, htag, hkey, if_true]
    rw [if_neg (by simp [hne, hsize, Cbc.blockLength]), hback, Cbc.unpad?_pad]
  · cases hseal

theorem sealWith_eq_ok {s : Sealer} {iv text aad : Bytes} {c : Sealed}
    (h : s.sealWith iv text aad = .ok c) :
    iv.length = s.cipher.ivLength ∧ c.iv = iv ∧
      ∃ m key, s.key.read = .ok m ∧ m.effective = .symmetric key ∧
        ((∃ bits, s.cipher = .gcm bits ∧ sealGcm key iv text aad = .ok (c.ciphertext, c.tag)) ∨
          ∃ bits hash, s.cipher = .cbcHmac bits hash ∧
            sealChained hash s.cipher.tagLength key iv text aad = .ok (c.ciphertext, c.tag)) := by
  by_cases hiv : iv.length = s.cipher.ivLength
  · simp only [sealWith, hiv, ne_eq, not_true_eq_false, if_false] at h
    obtain ⟨m, hm, h⟩ := TokenSeal.bind_eq_ok.1 h
    cases heff : m.effective with
    | symmetric key =>
      cases hc : s.cipher with
      | gcm bits =>
        simp only [heff, hc] at h
        obtain ⟨⟨ciphertext, tag⟩, hseal, h⟩ := TokenSeal.bind_eq_ok.1 h
        cases h
        exact ⟨hc ▸ hiv, rfl, m, key, hm, heff, .inl ⟨bits, rfl, hseal⟩⟩
      | cbcHmac bits hash =>
        simp only [heff, hc] at h
        obtain ⟨⟨ciphertext, tag⟩, hseal, h⟩ := TokenSeal.bind_eq_ok.1 h
        cases h
        exact ⟨hc ▸ hiv, rfl, m, key, hm, heff, .inr ⟨bits, hash, rfl, hseal⟩⟩
    | _ =>
      simp only [heff] at h
      cases h
  · simp [sealWith, hiv] at h

theorem openFor_of_sealWith {s : Sealer} {iv text aad : Bytes} {c : Sealed}
    (hcuts : s.cipher.CutsTag) (h : s.sealWith iv text aad = .ok c) :
    ∃ written, s.openFor c aad c.ciphertext.length = .opened written text.length ∧
      text <+: written := by
  obtain ⟨hiv, hsame, m, key, hm, heff, ⟨bits, hc, hseal⟩ | ⟨bits, hash, hc, hseal⟩⟩ :=
    sealWith_eq_ok h
  · rw [hc] at hiv
    obtain ⟨hopen, htag⟩ := openGcm?_sealGcm hiv hseal
    refine ⟨text, ?_, List.prefix_refl text⟩
    simp only [openFor, hm, heff, hc, hsame, hiv, htag, openGcm, hopen]
    simp [ContentCipher.tagLength, Gcm.tagLength]
  · rw [hc] at hiv hcuts hseal
    obtain ⟨hopen, htag⟩ := openChained_sealChained hcuts hiv hseal
    rw [← hsame] at hopen
    refine ⟨Cbc.pad text, ?_, List.prefix_append _ _⟩
    simp [openFor, hm, heff, hc, hsame ▸ hiv, htag, hopen, ContentCipher.tagLength]

theorem decrypt_of_sealWith {s : Sealer} {iv text aad : Bytes} {c : Sealed}
    (hcuts : s.cipher.CutsTag) (h : s.sealWith iv text aad = .ok c) :
    s.decrypt c aad = .ok text := by
  obtain ⟨written, hopen, hprefix⟩ := openFor_of_sealWith hcuts h
  obtain ⟨rest, rfl⟩ := hprefix
  simp [decrypt, decryptInto, Bytes.length_zeros, hopen]

/-- Both ciphers have an AES key at least as long as a block. -/
theorem keyLength_of_sealWith {s : Sealer} {iv text aad key : Bytes} {c : Sealed}
    (hkey : s.key.read = .ok (.symmetric key)) (h : s.sealWith iv text aad = .ok c) :
    16 ≤ key.length := by
  have haes : ∀ n, Aes.isKeyLength n = true → 16 ≤ n := by
    intro n hn
    simp only [Aes.isKeyLength, Bool.or_eq_true, decide_eq_true_eq] at hn
    omega
  obtain ⟨-, -, m, key', hm, heff, hseal⟩ := sealWith_eq_ok h
  obtain rfl : .symmetric key = m := Except.ok.inj (hkey.symm.trans hm)
  cases heff
  obtain ⟨bits, -, hseal⟩ | ⟨bits, hash, -, hseal⟩ := hseal
  · unfold sealGcm at hseal
    split at hseal
    · next hlen => exact haes _ hlen
    · cases hseal
  · unfold sealChained at hseal
    dsimp only at hseal
    split at hseal
    · next hlen =>
      have hhalf := haes _ hlen
      rw [textKey, List.length_drop] at hhalf
      omega
    · cases hseal

theorem tagLength_of_openFor {s : Sealer} {c : Sealed} {aad written : Bytes} {room n : Nat}
    (h : s.openFor c aad room = .opened written n) : c.tag.length = s.cipher.tagLength := by
  unfold openFor at h
  split at h
  · cases h
  · split at h
    · split at h
      · cases h
      · next hlengths =>
        simp only [not_or, ne_eq, Decidable.not_not] at hlengths
        exact hlengths.2
    · cases h

theorem openFor_of_decrypt {s : Sealer} {c : Sealed} {aad text : Bytes}
    (h : s.decrypt c aad = .ok text) :
    ∃ written n, s.openFor c aad c.ciphertext.length = .opened written n := by
  unfold decrypt decryptInto at h
  rw [Bytes.length_zeros] at h
  cases ho : s.openFor c aad c.ciphertext.length with
  | opened written n => exact ⟨written, n, rfl⟩
  | untouched cause => simp [ho] at h
  | wiped => simp [ho] at h

/-- A tag that was cut to its full length was long enough. -/
theorem cutsTag_of_sealWith {s : Sealer} {iv text aad : Bytes} {c : Sealed}
    (h : s.sealWith iv text aad = .ok c) (htag : c.tag.length = s.cipher.tagLength) :
    s.cipher.CutsTag := by
  obtain ⟨-, -, m, key, -, -, ⟨bits, hc, -⟩ | ⟨bits, hash, hc, hseal⟩⟩ := sealWith_eq_ok h
  · rw [hc]
    trivial
  · unfold sealChained at hseal
    dsimp only at hseal
    split at hseal
    · rw [Except.ok.injEq, Prod.mk.injEq] at hseal
      obtain ⟨-, hcut⟩ := hseal
      rw [← hcut, chainedTag, List.length_take, length_hmac, hc] at htag
      rw [hc]
      simp only [ContentCipher.tagLength, ContentCipher.CutsTag] at htag ⊢
      omega
    · cases hseal

end Sealer

theorem Recipient.Parcel.contentUnder_of_sealContent {p : Parcel} {key text : Bytes}
    {header : String} {e e' : Entropy}
    (hcuts : ∀ c, p.enc.method = .contentEncryption c → c.CutsTag)
    (h : Issuer.sealContent p.enc key text header e = (.ok p.content, e'))
    (haad : p.aad = Bytes.ofText header) : p.contentUnder key = .ok text := by
  obtain ⟨s, hs, h⟩ := Draw.ofExcept_bind_eq_ok.1 h
  obtain ⟨iv, e₁, -, h⟩ := Draw.bind_eq_ok.1 h
  obtain ⟨hseal, -⟩ := Draw.ofExcept_eq_ok.1 h
  obtain ⟨c, hc, -, rfl⟩ := Sealer.bind_eq_ok.1 hs
  rw [contentUnder, hs, haad]
  exact Sealer.decrypt_of_sealWith (hcuts c hc) hseal

theorem Recipient.Parcel.cutsTag_of_contentUnder {p : Parcel} {key key' text text' : Bytes}
    {header : String} {e e' : Entropy}
    (hseal : Issuer.sealContent p.enc key text header e = (.ok p.content, e'))
    (hopen : p.contentUnder key' = .ok text') :
    ∀ c, p.enc.method = .contentEncryption c → c.CutsTag := by
  intro c hc
  obtain ⟨s, hs, hseal⟩ := Draw.ofExcept_bind_eq_ok.1 hseal
  obtain ⟨iv, e₁, -, hseal⟩ := Draw.bind_eq_ok.1 hseal
  obtain ⟨hseal, -⟩ := Draw.ofExcept_eq_ok.1 hseal
  obtain ⟨s', hs', hdecrypt⟩ := TokenSeal.bind_eq_ok.1 hopen
  obtain ⟨written, n, hopened⟩ := Sealer.openFor_of_decrypt hdecrypt
  have htag := Sealer.tagLength_of_openFor hopened
  obtain ⟨c₁, hc₁, -, rfl⟩ := Sealer.bind_eq_ok.1 hs
  obtain ⟨c₂, hc₂, -, rfl⟩ := Sealer.bind_eq_ok.1 hs'
  obtain rfl : c = c₁ := by simpa [hc] using hc₁
  obtain rfl : c = c₂ := by simpa [hc] using hc₂
  exact Sealer.cutsTag_of_sealWith hseal htag

theorem Issuer.keyLength_of_sealContent {enc : Algorithm} {key text : Bytes} {header : String}
    {c : Sealed} {e e' : Entropy} (h : sealContent enc key text header e = (.ok c, e')) :
    16 ≤ key.length := by
  obtain ⟨s, hs, h⟩ := Draw.ofExcept_bind_eq_ok.1 h
  obtain ⟨iv, e₁, -, h⟩ := Draw.bind_eq_ok.1 h
  obtain ⟨hseal, -⟩ := Draw.ofExcept_eq_ok.1 h
  obtain ⟨cipher, -, -, rfl⟩ := Sealer.bind_eq_ok.1 hs
  exact Sealer.keyLength_of_sealWith rfl hseal

end TokenSeal
