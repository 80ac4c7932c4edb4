import TokenSeal.Proofs.Acceptance
import TokenSeal.Proofs.MemberOrder
import TokenSeal.Proofs.WrapRoundTrip

/-! The compact form: which texts have it, and what stands in every segment of the tokens that are
made. -/

namespace TokenSeal

/-! ### Segments -/

namespace CompactToken

variable {token : String} {t : CompactToken}

theorem parse_eq_ok : parse token = .ok t ↔ splitDots token = t.segments := by
  cases t with
  | signed p => exact parse_eq_signed
  | encrypted p => exact parse_eq_encrypted

theorem exists_signed_iff :
    (∃ p, parse token = .ok (.signed p)) ↔ token.toList.count '.' = 2 := by
  have hlength := length_splitDots token
  constructor
  · rintro ⟨p, hp⟩
    rw [parse_eq_signed.1 hp] at hlength
    simp only [List.length_cons, List.length_nil] at hlength
    omega
  · intro hcount
    rw [hcount] at hlength
    obtain ⟨header, payload, signature, hsplit⟩ := List.length_eq_three.1 hlength
    exact ⟨⟨header, payload, signature⟩, parse_eq_signed.2 hsplit⟩

theorem exists_encrypted_iff :
    (∃ p, parse token = .ok (.encrypted p)) ↔ token.toList.count '.' = 4 := by
  have hlength := length_splitDots token
  constructor
  · rintro ⟨p, hp⟩
    rw [parse_eq_encrypted.1 hp] at hlength
    simp only [List.length_cons, List.length_nil] at hlength
    omega
  · intro hcount
    rw [hcount] at hlength
    obtain ⟨header, rest, hsplit⟩ := List.exists_cons_of_length_eq_add_one hlength
    rw [hsplit, List.length_cons, Nat.add_right_cancel_iff] at hlength
    obtain ⟨encryptedKey, iv, ciphertext, tag, rfl⟩ := List.length_eq_four.1 hlength
    exact ⟨⟨header, encryptedKey, iv, ciphertext, tag⟩, parse_eq_encrypted.2 hsplit⟩

theorem joinDots_segments (h : parse token = .ok t) : joinDots t.segments = token := by
  rw [← parse_eq_ok.1 h, joinDots_splitDots]

theorem dot_notMem_of_mem_segments (h : parse token = .ok t) {segment : String}
    (hsegment : segment ∈ t.segments) : '.' ∉ segment.toList :=
  dot_notMem_of_mem_splitDots (parse_eq_ok.1 h ▸ hsegment)

theorem signingInput_append {p : SignedParts} (h : parse token = .ok (.signed p)) :
    p.signingInput ++ "." ++ p.signature = token := by
  rw [← joinDots_segments h, segments, joinDots_cons_cons, joinDots_cons_cons,
    SignedParts.signingInput]
  simp [joinDots, String.append_assoc]

end CompactToken

theorem Base64.symbol_urlSafe (v : UInt8) :
    (Alphabet.symbol .urlSafe v).isAlphanum = true ∨ Alphabet.symbol .urlSafe v = '-' ∨
      Alphabet.symbol .urlSafe v = '_' := by
  have hall : ∀ n < 256, (Alphabet.symbol .urlSafe (UInt8.ofNat n)).isAlphanum = true ∨
      Alphabet.symbol .urlSafe (UInt8.ofNat n) = '-' ∨
        Alphabet.symbol .urlSafe (UInt8.ofNat n) = '_' := by
    decide +kernel
  simpa using hall v.toNat v.toNat_lt

namespace Base64Url

/-- A text in the url-safe alphabet, which has no padding, that can be decoded. -/
def IsCoded (text : String) : Prop :=
  (∀ c ∈ text.toList, c.isAlphanum = true ∨ c = '-' ∨ c = '_') ∧ ∃ bytes, decode text = .ok bytes

/-- A text that stands for so many bytes. -/
def Holds (text : String) (n : Nat) : Prop :=
  ∃ bytes, decode text = .ok bytes ∧ bytes.length = n

theorem isCoded_encode (bytes : Bytes) : IsCoded (encode bytes) := by
  refine ⟨fun c hc => ?_, bytes, decode_encode bytes⟩
  rw [toList_encode] at hc
  obtain ⟨v, rfl⟩ := Base64.exists_symbol_of_mem bytes hc
  exact Base64.symbol_urlSafe v

theorem holds_encode {bytes : Bytes} {n : Nat} (h : bytes.length = n) : Holds (encode bytes) n :=
  ⟨bytes, decode_encode bytes, h⟩

theorem encode_eq_empty {bytes : Bytes} : encode bytes = "" ↔ bytes = [] :=
  ⟨fun h => encode_injective (b := []) h, fun h => h ▸ rfl⟩

end Base64Url

/-! ### Lengths of signatures -/

theorem Rsa.length_of_signDigest {k : RsaKey} {s : RsaSecret} {h : HashId}
    {message signature : Bytes} (hsign : signDigest k s h message = .ok signature) :
    signature.length = k.width := by
  unfold signDigest at hsign
  split at hsign
  · cases hsign
  · obtain ⟨n, -, rfl⟩ := map_eq_ok.1 hsign
    exact Bytes.length_ofNat _ _

theorem Rsa.length_of_signSalted {k : RsaKey} {s : RsaSecret} {h : HashId}
    {message signature : Bytes} {e e' : Entropy}
    (hsign : signSalted k s h message e = (.ok signature, e')) : signature.length = k.width := by
  obtain ⟨salt, e₁, -, hsign⟩ := Draw.bind_eq_ok.1 hsign
  cases hblock : saltedBlock? h (k.bitLength - 1) message salt with
  | none =>
    simp only [hblock] at hsign
    cases hsign
  | some block =>
    simp only [hblock] at hsign
    obtain ⟨n, -, hsign⟩ := Draw.ofExcept_bind_eq_ok.1 hsign
    cases hsign
    exact Bytes.length_ofNat _ _

theorem Ecdsa.length_of_sign? {c : CurveId} {d : Nat} {message signature : Bytes}
    (hsign : sign? c d message = some signature) : signature.length = 2 * c.width := by
  obtain ⟨k, -, hsign⟩ := Option.bind_eq_some_iff.1 hsign
  obtain ⟨point, -, hsign⟩ := Option.bind_eq_some_iff.1 hsign
  obtain ⟨i, -, hsign⟩ := Option.bind_eq_some_iff.1 hsign
  dsimp only at hsign
  split at hsign
  · cases hsign
  · cases hsign
    rw [List.length_append, Bytes.length_ofNat, Bytes.length_ofNat, Nat.two_mul]

theorem KeyMaterial.sizeBits_of_effective {m : KeyMaterial} {p : KeyPair}
    (h : m.effective = .pair p) : m.sizeBits = p.sizeBits := by
  cases m <;> simp_all [effective, sizeBits]

/-- An algorithm over a curve takes keys of that curve and no others. -/
theorem Algorithm.eq_ecdsa {a : Algorithm} {c : CurveId} (h : a ∈ builtin)
    (hmethod : a.method = .signature (.ecdsa c)) : a = ecdsa a.code c := by
  have hall : ∀ c ∈ CurveId.all, ∀ a ∈ builtin, a.method = .signature (.ecdsa c) →
      a = ecdsa a.code c := by
    decide
  exact hall c (by cases c <;> decide) a h hmethod

theorem CurveId.bits_injective {c c' : CurveId} (h : c.bits = c'.bits) : c = c' := by
  cases c <;> cases c' <;> first | rfl | cases h

namespace Signer

variable {s : Signer} {m : KeyMaterial} {data signature : Bytes} {e e' : Entropy}

theorem bits_of_effective {p : KeyPair} (hm : s.key.material = some m)
    (heff : m.effective = .pair p) : s.key.profile.bits = p.sizeBits := by
  rw [s.key.profile_eq m hm]
  exact KeyMaterial.sizeBits_of_effective heff

theorem size_of_rsa {k : RsaKey} (hm : s.key.material = some m)
    (heff : m.effective = .pair (.rsa k)) : s.key.profile.bits / 8 = k.width := by
  rw [bits_of_effective hm heff, KeyPair.sizeBits]
  omega

theorem curve_of_suits {k : EcKey} {c : CurveId} (ha : s.algorithm ∈ Algorithm.builtin)
    (hmethod : s.algorithm.method = .signature (.ecdsa c)) (hsuits : s.key.Suits s.algorithm)
    (hm : s.key.material = some m) (heff : m.effective = .pair (.ec k)) : k.curve = c := by
  have hlegal := hsuits.2.2
  rw [Algorithm.eq_ecdsa ha hmethod, bits_of_effective hm heff] at hlegal
  exact CurveId.bits_injective (Algorithm.isLegalSize_exact.1 hlegal)

/-- A signature has the length that the signer tells. -/
theorem length_of_sign (ha : s.algorithm ∈ Algorithm.builtin)
    (hs : bind s.key s.algorithm = .ok s) (h : s.sign data e = (.ok signature, e')) :
    signature.length = s.size := by
  obtain ⟨method, hmethod, hsuits, heq⟩ := bind_eq_ok.1 hs
  have hmethod' : s.method = method := congrArg Signer.method heq
  have hsize : s.size = sizeOf s.key method := congrArg Signer.size heq
  obtain ⟨m, hread, h⟩ := Draw.ofExcept_bind_eq_ok.1 h
  have hm := SecretKey.read_eq_ok.1 hread
  rw [hmethod'] at h
  rw [hsize]
  cases method with
  | unsecured =>
    cases h
    rfl
  | hmac hash =>
    cases heff : m.effective with
    | symmetric bytes =>
      simp only [heff] at h
      cases h
      exact length_hmac _ _ _
    | _ =>
      simp only [heff] at h
      cases h
  | rsaDigest hash =>
    obtain ⟨⟨k, secret⟩, hsecret, h⟩ := Draw.ofExcept_bind_eq_ok.1 h
    obtain ⟨heff, -⟩ := rsaSecret_eq_ok hsecret
    obtain ⟨h, -⟩ := Draw.ofExcept_eq_ok.1 h
    exact (Rsa.length_of_signDigest (mapError_eq_ok.1 h)).trans (size_of_rsa hm heff).symm
  | rsaSalted hash =>
    obtain ⟨⟨k, secret⟩, hsecret, h⟩ := Draw.ofExcept_bind_eq_ok.1 h
    obtain ⟨heff, -⟩ := rsaSecret_eq_ok hsecret
    exact (Rsa.length_of_signSalted (Draw.mapError_eq_ok.1 h)).trans (size_of_rsa hm heff).symm
  | ecdsa curve =>
    cases heff : m.effective with
    | pair p =>
      cases p with
      | ec k =>
        simp only [heff] at h
        obtain ⟨h, -⟩ := Draw.ofExcept_eq_ok.1 h
        obtain ⟨d, -, hsign⟩ := ecSignature_eq_ok h
        -- The key signs over its own curve, and the size is that of the algorithm's.
        rw [Ecdsa.length_of_sign? hsign, curve_of_suits ha hmethod hsuits hm heff]
        rfl
      | rsa k =>
        simp only [heff] at h
        cases h
    | _ =>
      simp only [heff] at h
      cases h

end Signer

/-! ### Lengths of sealed content -/

theorem Sealer.length_sealChained {h : HashId} {length : Nat}
    {key iv text aad ciphertext tag : Bytes}
    (hseal : sealChained h length key iv text aad = .ok (ciphertext, tag)) :
    ciphertext.length = (text.length / 16 + 1) * 16 := by
  unfold sealChained at hseal
  dsimp only at hseal
  split at hseal
  · rw [Except.ok.injEq, Prod.mk.injEq] at hseal
    rw [← hseal.1]
    exact Cbc.length_encrypt _ _ _
  · cases hseal

theorem Sealer.lengths_of_sealWith {s : Sealer} {iv text aad : Bytes} {c : Sealed}
    (hcuts : s.cipher.CutsTag) (h : s.sealWith iv text aad = .ok c) :
    c.iv.length = s.cipher.ivLength ∧ c.tag.length = s.cipher.tagLength ∧
      c.ciphertext.length = s.cipher.ciphertextLength text.length := by
  obtain ⟨hiv, hsame, m, key, -, -, ⟨bits, hc, hseal⟩ | ⟨bits, hash, hc, hseal⟩⟩ :=
    sealWith_eq_ok h
  · rw [hc] at hiv ⊢
    exact ⟨hsame ▸ hiv, (openGcm?_sealGcm hiv hseal).2, KeyWrapper.length_sealGcm hseal⟩
  · rw [hc] at hiv hcuts hseal ⊢
    exact ⟨hsame ▸ hiv, (openChained_sealChained hcuts hiv hseal).2, length_sealChained hseal⟩

namespace Issuer

theorem lengths_of_sealContent {enc : Algorithm} {cipher : ContentCipher} {key text : Bytes}
    {header : String} {c : Sealed} {e e' : Entropy}
    (hcipher : enc.method = .contentEncryption cipher) (hcuts : cipher.CutsTag)
    (h : sealContent enc key text header e = (.ok c, e')) :
    c.iv.length = cipher.ivLength ∧ c.tag.length = cipher.tagLength ∧
      c.ciphertext.length = cipher.ciphertextLength text.length := by
  obtain ⟨s, hs, h⟩ := Draw.ofExcept_bind_eq_ok.1 h
  obtain ⟨iv, e₁, -, h⟩ := Draw.bind_eq_ok.1 h
  obtain ⟨hseal, -⟩ := Draw.ofExcept_eq_ok.1 h
  obtain ⟨cipher', hcipher', -, rfl⟩ := Sealer.bind_eq_ok.1 hs
  obtain rfl : cipher' = cipher := by simpa [hcipher] using hcipher'.symm
  exact Sealer.lengths_of_sealWith hcuts hseal

/-! ### Compression -/

/-- The code of a compression that is told in a header, for the one that is asked for. -/
def toldCompression (code : Option String) : Option String := code.filter (· ≠ "none")

/-- What is encrypted of a text, for the code of the compression that is asked for. -/
def deflated (i : Issuer) (code : Option String) (text : Bytes) : Bytes :=
  if code = some "DEF" then i.deflate text else text

theorem compressor_of_builtin {o : Options} {code : String} {c : Compressor}
    (h : compressor o (.ok Algorithm.builtin) code = .ok c) :
    code = "none" ∧ c.method = .identity ∨
      code = "DEF" ∧ c.method = .deflate ∧ c.algorithm.code = "DEF" := by
  have hall : ∀ a ∈ Algorithm.builtin, a.family = .compression → a ∈ Algorithm.compressions := by
    decide
  obtain ⟨all, hbuiltin, h⟩ := bind_eq_ok.1 h
  cases hbuiltin
  obtain ⟨a, ha, h⟩ := bind_eq_ok.1 h
  obtain ⟨hmem, hfamily, rfl⟩ := Algorithm.find_eq_ok ha
  obtain ⟨-, -, h⟩ := bind_eq_ok.1 h
  have hcompression := hall a hmem hfamily
  simp only [Algorithm.compressions, List.mem_cons, List.not_mem_nil, or_false] at hcompression
  obtain rfl | rfl := hcompression
  · cases h
    exact .inl ⟨rfl, rfl⟩
  · cases h
    exact .inr ⟨rfl, rfl, rfl⟩

/-- Nothing is told of a compression that does nothing, and nothing is compressed with it. -/
theorem effectiveCompressor_of_builtin {i : Issuer} {code : Option String}
    {zip : Option Compressor} (hknown : i.known = .ok Algorithm.builtin)
    (h : i.effectiveCompressor code = .ok zip) :
    zip.map (·.algorithm.code) = toldCompression code ∧
      ∀ text, i.compressed zip text = i.deflated code text := by
  cases code with
  | none =>
    cases h
    exact ⟨rfl, fun _ => rfl⟩
  | some code =>
    obtain ⟨c, hc, hzip⟩ := bind_eq_ok.1 h
    rw [hknown] at hc
    obtain ⟨rfl, hmethod⟩ | ⟨rfl, hmethod, hcode⟩ := compressor_of_builtin hc
    · simp only [Compressor.isIdentity, hmethod, decide_true, if_true] at hzip
      cases hzip
      exact ⟨rfl, fun _ => rfl⟩
    · simp only [Compressor.isIdentity, hmethod, reduceCtorEq, decide_false] at hzip
      cases hzip
      refine ⟨by simp [hcode, toldCompression, Option.filter], fun text => ?_⟩
      simp [compressed, Compressor.compress, hmethod, deflated]

/-! ### The form of a token -/

/-- A signed token: the header, the payload, and as many bytes as the signer tells. -/
structure SignedForm (i : Issuer) (payload : Bytes) (c : SigningCredentials) (extra : Header)
    (s : Signer) (p : SignedParts) : Prop where
  signer : i.signer c = .ok s
  coded : ∀ segment ∈ (CompactToken.signed p).segments, Base64Url.IsCoded segment
  header : ∃ h, Header.ofSegment p.header = .ok h ∧
    h.members = completed i.options (signedMandate c.algorithm s.key.id) extra
  payload : Base64Url.decode p.payload = .ok payload
  signature : Base64Url.Holds p.signature s.size

/-- An encrypted token: the header, an encrypted key if one is sent, and as many bytes of IV, tag and
ciphertext as the content cipher tells. -/
structure SealedForm (i : Issuer) (text : Bytes) (c : EncryptingCredentials) (cty : Option String)
    (extra : Header) (m : SealedMaking) (p : SealedParts) : Prop where
  makes : i.Makes text c cty extra m
  coded : ∀ segment ∈ (CompactToken.encrypted p).segments, Base64Url.IsCoded segment
  header : ∃ h, Header.ofSegment p.header = .ok h ∧
    h.members = completed i.options (sealedMandate c.algorithm c.encryption
      (toldCompression c.compression) m.wrapper.key.id cty m.wrapped.parameters) extra
  fits : m.wrapped.parameters.Fits m.wrapper.method
  encryptedKey : p.encryptedKey = "" ↔ c.algorithm = "dir" ∨ c.algorithm = "ECDH-ES"
  content : ∃ cipher, m.enc.method = .contentEncryption cipher ∧
    Base64Url.Holds p.iv cipher.ivLength ∧ Base64Url.Holds p.tag cipher.tagLength ∧
      Base64Url.Holds p.ciphertext
        (cipher.ciphertextLength (i.deflated c.compression text).length)

/-- The forms of token for the three kinds of credentials. Around a signed token there are no members
but the issuer's. -/
inductive Emits (i : Issuer) (payload : Bytes) (extra : Header) : Credentials → String → Prop
  | signed {c : SigningCredentials} {token : String} {s : Signer} {p : SignedParts}
      (parse : CompactToken.parse token = .ok (.signed p))
      (form : i.SignedForm payload c extra s p) : Emits i payload extra ⟨some c, none⟩ token
  | encrypted {c : EncryptingCredentials} {token : String} {m : SealedMaking} {p : SealedParts}
      (parse : CompactToken.parse token = .ok (.encrypted p))
      (form : i.SealedForm payload c none extra m p) : Emits i payload extra ⟨none, some c⟩ token
  | nested {s : SigningCredentials} {c : EncryptingCredentials} {inner token : String}
      {m : SealedMaking} {p : SealedParts}
      (signs : ∃ e e', i.sign payload s extra e = (.ok inner, e'))
      (inside : Emits i payload extra ⟨some s, none⟩ inner)
      (parse : CompactToken.parse token = .ok (.encrypted p))
      (form : i.SealedForm (Bytes.ofText inner) c (some nestedType) Header.empty m p) :
      Emits i payload extra ⟨some s, some c⟩ token

section

variable {i : Issuer} {payload text : Bytes} {cty : Option String} {extra : Header}
  {token : String} {e e' : Entropy}

theorem emits_of_sign {c : SigningCredentials} (hknown : i.known = .ok Algorithm.builtin)
    (hextra : extra.IsPlain) (h : i.sign payload c extra e = (.ok token, e')) :
    i.Emits payload extra ⟨some c, none⟩ token := by
  obtain ⟨s, signature, hs, hsign, rfl⟩ := sign_eq_ok h
  obtain ⟨hfind, hcode, hbind, -, -⟩ := signer_eq_ok hs
  rw [hknown] at hfind
  have hsplit := splitDots_signed (i.signedHeader s extra) payload signature
  let p : SignedParts :=
    ⟨(i.signedHeader s extra).toSegment, segment payload, segment signature⟩
  refine .signed (p := p) (CompactToken.parse_eq_signed.2 hsplit)
    { signer := hs
      coded := ?_
      header := ⟨_, Header.ofSegment_toSegment (isPlain_signedHeader i s hextra), ?_⟩
      payload := Base64Url.decode_encode payload
      signature :=
        Base64Url.holds_encode (Signer.length_of_sign (Known.mem_builtin hfind).1 hbind hsign) }
  · simp only [CompactToken.segments, List.forall_mem_cons]
    exact ⟨Base64Url.isCoded_encode _, Base64Url.isCoded_encode _, Base64Url.isCoded_encode _,
      by simp⟩
  · rw [members_signedHeader, hcode]

theorem encryptedKey_of_makes {c : EncryptingCredentials} {m : SealedMaking}
    (hknown : i.known = .ok Algorithm.builtin) (h : i.Makes text c cty extra m) :
    m.parts.encryptedKey = "" ↔ c.algorithm = "dir" ∨ c.algorithm = "ECDH-ES" := by
  obtain ⟨hfind, hcode, hmethod, -, -, -⟩ := wrapper_eq_ok h.wrapper
  rw [hknown] at hfind
  obtain ⟨hmem, hfamily⟩ := Known.mem_builtin hfind
  obtain ⟨e₀, e₁, hwraps⟩ := h.wraps
  obtain ⟨n, k, -, -, hwrapping⟩ := KeyWrapper.wrapping_of_wrapNew hwraps
  obtain ⟨e₂, e₃, hseals⟩ := h.seals
  -- What was sealed under the content key shows that it has the length of a block, at least.
  have hlow : 16 ≤ n := hwrapping.length ▸ keyLength_of_sealContent hseals
  rw [show m.parts.encryptedKey = Base64Url.encode m.wrapped.encryptedKey from rfl,
    Base64Url.encode_eq_empty, hwrapping.encryptedKey_eq_nil hlow,
    ← Algorithm.sendsNothing_iff ((Algorithm.mem_of_family hmem).2 hfamily) hmethod,
    Algorithm.SendsNothing, hcode]

theorem sealedForm_of_makes {c : EncryptingCredentials} {m : SealedMaking}
    (hknown : i.known = .ok Algorithm.builtin) (hcount : i.options.iterations < 2 ^ 32)
    (hextra : extra.IsPlain) (h : i.Makes text c cty extra m) :
    i.SealedForm text c cty extra m m.parts := by
  obtain ⟨-, hcode, -⟩ := wrapper_eq_ok h.wrapper
  have henc : m.enc.code = c.encryption := (Known.find_eq_ok h.enc).2
  obtain ⟨hzip, hcompressed⟩ := effectiveCompressor_of_builtin hknown h.zip
  have hfits := h.fits hcount
  have hfind := h.enc
  rw [hknown] at hfind
  obtain ⟨hmem, hfamily⟩ := Known.mem_builtin hfind
  obtain ⟨cipher, hcipher, hcuts, -⟩ := Algorithm.method_of_contentEncryption hmem hfamily
  obtain ⟨e₀, e₁, hseals⟩ := h.seals
  obtain ⟨hiv, htag, htext⟩ := lengths_of_sealContent hcipher hcuts hseals
  exact
    { makes := h
      coded := by
        simp only [CompactToken.segments, List.forall_mem_cons]
        exact ⟨Base64Url.isCoded_encode _, Base64Url.isCoded_encode _, Base64Url.isCoded_encode _,
          Base64Url.isCoded_encode _, Base64Url.isCoded_encode _, by simp⟩
      header := ⟨m.header, Header.ofSegment_toSegment (h.isPlain_header hfits hextra), by
        rw [h.header, members_finishHeader, members_sealedMembers, hcode, henc, hzip]⟩
      fits := hfits
      encryptedKey := encryptedKey_of_makes hknown h
      content := ⟨cipher, hcipher, Base64Url.holds_encode hiv, Base64Url.holds_encode htag,
        Base64Url.holds_encode (hcompressed text ▸ htext)⟩ }

theorem emits_of_encode {c : Credentials} (hknown : i.known = .ok Algorithm.builtin)
    (hcount : i.options.iterations < 2 ^ 32) (hextra : extra.IsPlain)
    (h : i.encode payload c extra e = (.ok token, e')) : i.Emits payload extra c token := by
  obtain ⟨signing, encrypting⟩ := c
  cases signing with
  | none =>
    cases encrypting with
    | none => cases h
    | some c =>
      obtain ⟨m, hm, hparts⟩ := encrypt_eq_ok h
      exact .encrypted (CompactToken.parse_eq_encrypted.2 hparts)
        (sealedForm_of_makes hknown hcount hextra hm)
  | some s =>
    cases encrypting with
    | none => exact emits_of_sign hknown hextra h
    | some c =>
      obtain ⟨inner, e₁, hinner, henc⟩ := Draw.bind_eq_ok.1 h
      obtain ⟨m, hm, hparts⟩ := encrypt_eq_ok henc
      exact .nested ⟨e, e₁, hinner⟩ (emits_of_sign hknown hextra hinner)
        (CompactToken.parse_eq_encrypted.2 hparts)
        (sealedForm_of_makes hknown hcount Header.isPlain_empty hm)

end

/-- The texts in compact form are those with two or four dots. Their segments have no dots, and of a
signed token all before the last dot is what was signed. Every token that is made with the built-in
algorithms has the form of its credentials: members in their order, all of the payload, and segments
as long as the algorithms tell. -/
theorem compact_of_encode :
    (∀ token, ((∃ p, CompactToken.parse token = .ok (.signed p)) ↔ token.toList.count '.' = 2) ∧
      ((∃ p, CompactToken.parse token = .ok (.encrypted p)) ↔ token.toList.count '.' = 4)) ∧
    (∀ token t, CompactToken.parse token = .ok t →
      joinDots t.segments = token ∧ (∀ segment ∈ t.segments, '.' ∉ segment.toList) ∧
        ∀ p, t = .signed p → p.signingInput ++ "." ++ p.signature = token) ∧
    ∀ (i : Issuer) (payload : Bytes) (c : Credentials) (extra : Header) (token : String)
      (e e' : Entropy), i.known = .ok Algorithm.builtin → i.options.iterations < 2 ^ 32 →
        extra.IsPlain → i.encode payload c extra e = (.ok token, e') →
          i.Emits payload extra c token := by
  refine ⟨fun token => ⟨CompactToken.exists_signed_iff, CompactToken.exists_encrypted_iff⟩,
    fun token t h => ⟨CompactToken.joinDots_segments h, ?_, ?_⟩, ?_⟩
  · exact fun segment => CompactToken.dot_notMem_of_mem_segments h
  · rintro p rfl
    exact CompactToken.signingInput_append h
  · intro i payload c extra token e e' hknown hcount hextra
    exact emits_of_encode hknown hcount hextra

/-- Around the greeting there is a header with four members, no key, and an IV and a tag of the
lengths of the cipher. -/
theorem compact_of_encode_greeting :
    let e := Entropy.scrambled 0
    ∃ token p h, Recipient.plainIssuer.encode (Bytes.ofText "hi")
        ⟨some ⟨"HS256", .key (Recipient.zeroKey "a")⟩, some Recipient.sharedCredentials⟩
          Header.empty e = (.ok token, e.advance 12) ∧
      CompactToken.parse token = .ok (.encrypted p) ∧ Header.ofSegment p.header = .ok h ∧
      h.members = [("alg", .string "dir"), ("enc", .string "A128GCM"), ("kid", .string "e"),
        ("cty", .string "JWT")] ∧
      p.encryptedKey = "" ∧ Base64Url.Holds p.iv 12 ∧ Base64Url.Holds p.tag 16 := by
  intro e
  have htoken := Recipient.encode_shared (e := e)
    (rfl : Recipient.plainIssuer.sign (Bytes.ofText "hi") ⟨"HS256", .key (Recipient.zeroKey "a")⟩
      Header.empty e = _)
  obtain ⟨-, -, hemits⟩ := compact_of_encode
  have hform := hemits _ _ _ _ _ _ _ rfl (by decide) Header.isPlain_empty htoken
  cases hform with
  | @nested _ _ inner _ m p _ _ hparse form =>
    obtain ⟨h, hh, hmembers⟩ := form.header
    obtain ⟨cipher, hcipher, hiv, htag, -⟩ := form.content
    have hwrapper : m.wrapper = Recipient.sharedWrapper :=
      Except.ok.inj (form.makes.wrapper.symm.trans Recipient.wrapper_shared)
    have henc : m.enc = Algorithm.cipher "A128GCM" (.gcm 128) :=
      Except.ok.inj (form.makes.enc.symm.trans rfl)
    have hnone : m.wrapped.parameters = .none := by
      have hfits := form.fits
      rw [hwrapper] at hfits
      cases hp : m.wrapped.parameters with
      | none => rfl
      | _ => rw [hp] at hfits; exact hfits.elim
    rw [hwrapper, hnone] at hmembers
    rw [henc] at hcipher
    cases hcipher
    exact ⟨_, p, h, htoken, hparse, hh, hmembers, form.encryptedKey.2 (.inl rfl), hiv, htag⟩

end Issuer

end TokenSeal
