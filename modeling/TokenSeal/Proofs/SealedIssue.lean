import TokenSeal.Proofs.SealedReading
import TokenSeal.Proofs.SignedRoundTrip
import TokenSeal.Proofs.Wrapping

/-! What an encrypted token is made of, and that all of it can be read back without any key. -/

namespace TokenSeal

/-- What goes into an encrypted token. -/
structure SealedMaking where
  wrapper : KeyWrapper
  enc : Algorithm
  zip : Option Compressor
  wrapped : WrappedKey
  header : Header
  content : Sealed

namespace SealedMaking

def parts (m : SealedMaking) : SealedParts :=
  ⟨m.header.toSegment, Issuer.segment m.wrapped.encryptedKey, Issuer.segment m.content.iv,
    Issuer.segment m.content.ciphertext, Issuer.segment m.content.tag⟩

def reading (m : SealedMaking) : SealedReading :=
  ⟨m.header, m.wrapper.algorithm.code, m.enc.code,
    ⟨m.wrapper.algorithm, m.enc, m.wrapper.limits, m.wrapped.parameters, m.wrapped.encryptedKey,
      m.content, Bytes.ofText m.header.toSegment⟩, m.zip⟩

theorem splitDots_parts (m : SealedMaking) :
    splitDots (joinDots [m.parts.header, m.parts.encryptedKey, m.parts.iv, m.parts.ciphertext,
      m.parts.tag]) =
        [m.parts.header, m.parts.encryptedKey, m.parts.iv, m.parts.ciphertext, m.parts.tag] := by
  have hdotless : ∀ bytes, '.' ∉ (Issuer.segment bytes).toList := Base64Url.dot_notMem_encode
  refine splitDots_joinDots (by simp) ?_
  simp only [List.forall_mem_cons, List.not_mem_nil, false_implies, implies_true, and_true]
  exact ⟨Base64Url.dot_notMem_encode _, hdotless _, hdotless _, hdotless _, hdotless _⟩

end SealedMaking

namespace Issuer

/-- Members that only the issuer may set. -/
def reservedNames : List String := ["kid", "zip", "cty", "crit", "apu", "apv"]

/-- Some content is made into an encrypted token with given credentials, content type and extra
members. -/
structure Makes (i : Issuer) (text : Bytes) (c : EncryptingCredentials) (cty : Option String)
    (extra : Header) (m : SealedMaking) : Prop where
  wrapper : i.wrapper c = .ok m.wrapper
  enc : i.known.find .contentEncryption c.encryption = .ok m.enc
  zip : i.effectiveCompressor c.compression = .ok m.zip
  wraps : ∃ e e', m.wrapper.wrapNew m.enc e = (.ok m.wrapped, e')
  header : m.header = finishHeader i.options
    (sealedMembers m.wrapper m.enc m.zip cty m.wrapped.parameters) extra
  seals : ∃ e e', sealContent m.enc m.wrapped.contentKey (i.compressed m.zip text)
    m.header.toSegment e = (.ok m.content, e')

/-- The content key comes of the first bytes drawn, whatever is in the header. -/
theorem encrypt_wrapped {i : Issuer} {text : Bytes} {c : EncryptingCredentials}
    {cty : Option String} {extra : Header} {token : String} {e e' : Entropy}
    (h : i.encrypt text c cty extra e = (.ok token, e')) :
    ∃ m, i.Makes text c cty extra m ∧
      splitDots token =
        [m.parts.header, m.parts.encryptedKey, m.parts.iv, m.parts.ciphertext, m.parts.tag] ∧
      ∃ e₁, m.wrapper.wrapNew m.enc e = (.ok m.wrapped, e₁) := by
  have h := Draw.mapError_eq_ok.1 h
  obtain ⟨enc, henc, h⟩ := Draw.ofExcept_bind_eq_ok.1 h
  obtain ⟨w, hw, h⟩ := Draw.ofExcept_bind_eq_ok.1 h
  obtain ⟨zip, hzip, h⟩ := Draw.ofExcept_bind_eq_ok.1 h
  obtain ⟨wrapped, e₁, hwrap, h⟩ := Draw.bind_eq_ok.1 h
  obtain ⟨content, e₂, hseal, h⟩ := Draw.bind_eq_ok.1 h
  rw [Draw.pure_apply, Prod.mk.injEq, Except.ok.injEq] at h
  obtain ⟨rfl, rfl⟩ := h
  let header := finishHeader i.options (sealedMembers w enc zip cty wrapped.parameters) extra
  let m : SealedMaking := ⟨w, enc, zip, wrapped, header, content⟩
  exact ⟨m, ⟨hw, henc, hzip, ⟨e, e₁, hwrap⟩, rfl, ⟨e₁, _, hseal⟩⟩, m.splitDots_parts, e₁, hwrap⟩

theorem encrypt_eq_ok {i : Issuer} {text : Bytes} {c : EncryptingCredentials}
    {cty : Option String} {extra : Header} {token : String} {e e' : Entropy}
    (h : i.encrypt text c cty extra e = (.ok token, e')) :
    ∃ m, i.Makes text c cty extra m ∧ splitDots token =
      [m.parts.header, m.parts.encryptedKey, m.parts.iv, m.parts.ciphertext, m.parts.tag] := by
  obtain ⟨m, hm, hsplit, -⟩ := encrypt_wrapped h
  exact ⟨m, hm, hsplit⟩

/-- The token that is made when wrapping and sealing come out. -/
theorem encrypt_of_sealContent {i : Issuer} {text : Bytes} {c : EncryptingCredentials}
    {cty : Option String} {extra : Header} {m : SealedMaking} {e e₁ e₂ : Entropy}
    (hwrapper : i.wrapper c = .ok m.wrapper)
    (henc : i.known.find .contentEncryption c.encryption = .ok m.enc)
    (hzip : i.effectiveCompressor c.compression = .ok m.zip)
    (hwrap : m.wrapper.wrapNew m.enc e = (.ok m.wrapped, e₁))
    (hheader : m.header = finishHeader i.options
      (sealedMembers m.wrapper m.enc m.zip cty m.wrapped.parameters) extra)
    (hseal : sealContent m.enc m.wrapped.contentKey (i.compressed m.zip text) m.header.toSegment
      e₁ = (.ok m.content, e₂)) :
    i.Makes text c cty extra m ∧ i.encrypt text c cty extra e = (.ok (joinDots [m.parts.header,
      m.parts.encryptedKey, m.parts.iv, m.parts.ciphertext, m.parts.tag]), e₂) := by
  refine ⟨⟨hwrapper, henc, hzip, ⟨e, e₁, hwrap⟩, hheader, ⟨e₁, e₂, hseal⟩⟩, ?_⟩
  have hsealed : i.sealWith text m.enc m.wrapper m.zip cty extra e =
      (.ok (joinDots [m.parts.header, m.parts.encryptedKey, m.parts.iv, m.parts.ciphertext,
        m.parts.tag]), e₂) := by
    rw [hheader] at hseal
    rw [sealWith, Draw.bind_ok hwrap, Draw.bind_ok hseal, SealedMaking.parts, hheader]
    rfl
  rw [encrypt, henc, hwrapper, hzip, Draw.mapError, Draw.ofExcept_ok_bind, Draw.ofExcept_ok_bind,
    Draw.ofExcept_ok_bind, hsealed]

/-! ### Keys and compressors -/

theorem wrapper_eq_ok {i : Issuer} {c : EncryptingCredentials} {w : KeyWrapper}
    (h : i.wrapper c = .ok w) :
    i.known.find .keyManagement c.algorithm = .ok w.algorithm ∧
      w.algorithm.code = c.algorithm ∧ w.algorithm.method = .keyManagement w.method ∧
      w.key.Suits w.algorithm ∧ w.limits = i.options.passwordLimits ∧
      (w.algorithm.keyType ≠ .none → c.source.Offers i.rings w.key) := by
  obtain ⟨w', hw, rfl⟩ := map_eq_ok.1 h
  obtain ⟨a, k, ha, hbind, -, hoffers⟩ := KeySource.bind_eq_ok hw
  obtain ⟨m, hm, hsuits, rfl⟩ := KeyWrapper.bind_eq_ok.1 hbind
  exact ⟨ha, (Known.find_eq_ok ha).2, hm, hsuits, rfl, hoffers⟩

theorem iterations_of_wrapper {i : Issuer} {c : EncryptingCredentials} {w : KeyWrapper}
    (h : i.wrapper c = .ok w) (hpos : 1 ≤ i.options.iterations) :
    1 ≤ w.limits.iterations ∧ w.limits.iterations ≤ w.limits.maxIterations := by
  obtain ⟨-, -, -, -, hlimits, -⟩ := wrapper_eq_ok h
  rw [hlimits]
  exact ⟨hpos, Nat.le_max_right _ _⟩

theorem compressor_eq_ok {o : Options} {known : Known} {code : String} {c : Compressor}
    (h : compressor o known code = .ok c) :
    c.algorithm.code = code ∧ c.limit = o.maxDecompressedSize := by
  obtain ⟨all, -, h⟩ := bind_eq_ok.1 h
  obtain ⟨a, ha, h⟩ := bind_eq_ok.1 h
  obtain ⟨-, -, h⟩ := bind_eq_ok.1 h
  cases hm : a.method with
  | compression m =>
    simp only [hm] at h
    cases h
    exact ⟨(Algorithm.find_eq_ok ha).2.2, rfl⟩
  | _ =>
    simp only [hm] at h
    cases h

/-- The code in the header stands for the compressor that was used. -/
theorem effectiveCompressor_eq_ok {i : Issuer} {code : Option String} {zip : Option Compressor}
    (h : i.effectiveCompressor code = .ok zip) :
    (zip.map (·.algorithm.code)).mapM (compressor i.options i.known) = .ok zip ∧
      ∀ c, zip = some c → c.limit = i.options.maxDecompressedSize := by
  cases code with
  | none =>
    cases h
    exact ⟨rfl, by simp⟩
  | some code =>
    obtain ⟨c, hc, h⟩ := bind_eq_ok.1 h
    obtain ⟨hcode, hlimit⟩ := compressor_eq_ok hc
    by_cases hid : c.isIdentity = true
    · simp only [hid, if_true] at h
      cases h
      exact ⟨rfl, by simp⟩
    · simp only [hid] at h
      cases h
      refine ⟨?_, fun c' hc' => by cases hc'; exact hlimit⟩
      simp [hcode, hc]

/-! ### The header -/

section Header

variable {i : Issuer} {text : Bytes} {c : EncryptingCredentials} {cty : Option String}
  {extra : Header} {m : SealedMaking}

theorem get?_sealedMembers (w : KeyWrapper) (enc : Algorithm) (zip : Option Compressor)
    (cty : Option String) (p : WrapParameters) {name : String}
    (hname : name ∉ Header.parameterNames) :
    (sealedMembers w enc zip cty p).get? name =
      if name = "alg" then some (.string w.algorithm.code)
      else if name = "enc" then some (.string enc.code)
      else if name = "zip" then zip.map (.string ·.algorithm.code)
      else if name = "kid" then w.key.id.map .string
      else if name = "cty" then cty.map .string
      else none := by
  simp only [sealedMembers, Header.get?_setParameters _ _ hname, Header.get?_insertText,
    Header.get?_insert, Header.get?_empty, Option.map_map, Function.comp_def, eq_comm (b := name)]
  by_cases halg : name = "alg"
  · simp [halg]
  by_cases henc : name = "enc"
  · simp [henc]
  by_cases hzip : name = "zip"
  · simp [hzip]
  by_cases hkid : name = "kid"
  · simp [hkid]
  · simp [halg, henc, hzip, hkid]

theorem Makes.get?_header (h : i.Makes text c cty extra m) {name : String}
    (hname : name ∈ ["alg", "enc", "zip", "kid", "cty", "crit"])
    (hextra : name ∈ reservedNames → extra.get? name = none) :
    m.header.get? name =
      if name = "alg" then some (.string m.wrapper.algorithm.code)
      else if name = "enc" then some (.string m.enc.code)
      else if name = "zip" then m.zip.map (.string ·.algorithm.code)
      else if name = "kid" then m.wrapper.key.id.map .string
      else if name = "cty" then cty.map .string
      else none := by
  simp only [List.mem_cons, List.not_mem_nil, or_false] at hname
  rw [h.header, Header.get?_finishHeader]
  obtain rfl | rfl | rfl | rfl | rfl | rfl := hname <;>
    simp [get?_sealedMembers, Header.parameterNames, reservedNames] at hextra ⊢ <;> simp [hextra]

theorem Makes.carries_header (h : i.Makes text c cty extra m)
    (hreserved : ∀ name ∈ reservedNames, extra.get? name = none) :
    m.header.Carries m.wrapped.parameters := by
  have hapu : extra.get? "apu" = none := hreserved "apu" (by simp [reservedNames])
  have hapv : extra.get? "apv" = none := hreserved "apv" (by simp [reservedNames])
  rw [h.header]
  refine .finishHeader i.options (Header.carries_setParameters _ _ ?_ ?_) hapu hapv <;>
    simp [Header.get?_insertText, Header.get?_insert, Header.get?_empty]

theorem Makes.isPlain_header (h : i.Makes text c cty extra m)
    (hfits : m.wrapped.parameters.Fits m.wrapper.method) (hextra : extra.IsPlain) :
    m.header.IsPlain := by
  have hcodes : ((Header.empty.insert "alg" (.string m.wrapper.algorithm.code)).insert "enc"
      (.string m.enc.code)).IsPlain :=
    (Header.isPlain_empty.insertString _ _).insertString _ _
  have hmembers := (((hcodes.insertText "zip" (m.zip.map (·.algorithm.code))).insertText "kid"
    m.wrapper.key.id).insertText "cty" cty).setParameters hfits
  rw [h.header]
  exact .finishHeader i.options hmembers hextra

theorem Makes.fits (h : i.Makes text c cty extra m) (hcount : i.options.iterations < 2 ^ 32) :
    m.wrapped.parameters.Fits m.wrapper.method := by
  obtain ⟨e, e', hwraps⟩ := h.wraps
  obtain ⟨n, k, -, -, hwrapping⟩ := KeyWrapper.wrapping_of_wrapNew hwraps
  obtain ⟨-, -, -, -, hlimits, -⟩ := wrapper_eq_ok h.wrapper
  exact hwrapping.fits (by rw [hlimits]; exact hcount)

theorem Makes.compressor_header (h : i.Makes text c cty extra m)
    (hextra : extra.get? "zip" = none) :
    m.header.zip?.mapM (compressor i.options i.known) = .ok m.zip := by
  have hget : m.header.get? "zip" = m.zip.map (.string ·.algorithm.code) :=
    h.get?_header (by simp) fun _ => hextra
  have hcode : m.header.zip? = m.zip.map (·.algorithm.code) := by
    rw [Header.zip?, Header.text?, hget]
    cases m.zip <;> rfl
  rw [hcode]
  exact (effectiveCompressor_eq_ok h.zip).1

theorem Makes.parameters_header (h : i.Makes text c cty extra m)
    (hcount : i.options.iterations < 2 ^ 32)
    (hreserved : ∀ name ∈ reservedNames, extra.get? name = none) :
    m.header.parameters m.wrapper.method = .ok m.wrapped.parameters :=
  Header.parameters_of_carries (h.fits hcount) (h.carries_header hreserved)

/-- A token is read as it was made if its header tells the parameters, and the compressor is the
one that the header tells. -/
theorem Makes.readsSealed_of_header (h : i.Makes text c cty extra m) {zip : Option Compressor}
    (hcount : i.options.iterations < 2 ^ 32) (hextra : extra.IsPlain)
    (hcrit : extra.get? "crit" = none)
    (hzip : m.header.zip?.mapM (compressor i.options i.known) = .ok zip)
    (hparameters : m.header.parameters m.wrapper.method = .ok m.wrapped.parameters)
    (keys : List SecretKey) :
    Recipient.ReadsSealed ⟨i.options, i.known, keys⟩ m.parts { m.reading with zip := zip } := by
  obtain ⟨hfind, hcode, hmethod, -, hlimits, -⟩ := wrapper_eq_ok h.wrapper
  have hencCode : m.enc.code = c.encryption := (Known.find_eq_ok h.enc).2
  have hsegment := Header.ofSegment_toSegment (h.isPlain_header (h.fits hcount) hextra)
  have hcritical : m.header.get? "crit" = none := h.get?_header (by simp) fun _ => hcrit
  exact
    { header := Header.ofSegment_eq_ok.1 hsegment
      critical := Options.checkCritical_of_none hcritical
      alg := h.get?_header (by simp) (by simp [reservedNames])
      enc := h.get?_header (by simp) (by simp [reservedNames])
      knownAlg := by rw [← hcode] at hfind; exact hfind
      knownEnc := by have henc := h.enc; rw [← hencCode] at henc; exact henc
      zip := hzip
      limits := hlimits
      parameters := ⟨m.wrapper.method, hmethod, hparameters⟩
      encryptedKey := Base64Url.decode_encode _
      iv := Base64Url.decode_encode _
      ciphertext := Base64Url.decode_encode _
      tag := Base64Url.decode_encode _
      aad := rfl }

theorem Makes.readsSealed (h : i.Makes text c cty extra m)
    (hcount : i.options.iterations < 2 ^ 32) (hextra : extra.IsPlain)
    (hreserved : ∀ name ∈ reservedNames, extra.get? name = none) (keys : List SecretKey) :
    Recipient.ReadsSealed ⟨i.options, i.known, keys⟩ m.parts m.reading :=
  h.readsSealed_of_header hcount hextra (hreserved "crit" (by simp [reservedNames]))
    (h.compressor_header (hreserved "zip" (by simp [reservedNames])))
    (h.parameters_header hcount hreserved) keys

end Header

end Issuer

end TokenSeal
