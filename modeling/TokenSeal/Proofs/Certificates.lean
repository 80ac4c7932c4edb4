import TokenSeal.Proofs.Resolution

/-! A key behind a certificate works as the key itself does. All that reads a key looks through the
certificate, so that taking the certificates off any keys changes no result, and tokens are made and
read with the one as with the other. -/

namespace TokenSeal

/-! ### Taking certificates off -/

namespace KeyMaterial

@[simp]
theorem effective_effective (m : KeyMaterial) : m.effective.effective = m.effective := by
  cases m <;> rfl

theorem profile_effective (m : KeyMaterial) :
    m.effective.profile = { m.profile with keyType := m.profile.effective } := by
  cases m <;> rfl

theorem isPrivate_effective (m : KeyMaterial) : m.effective.isPrivate = m.isPrivate := by
  cases m <;> rfl

end KeyMaterial

namespace SecretKey

/-- The key without the certificate around its material, if there is one. -/
def bare (k : SecretKey) : SecretKey where
  id := k.id
  metadata := k.metadata
  profile := { k.profile with keyType := k.profile.effective }
  material := k.material.map (·.effective)
  profile_eq := by
    intro m hm
    obtain ⟨whole, hwhole, rfl⟩ := Option.map_eq_some_iff.1 hm
    rw [k.profile_eq whole hwhole, whole.profile_effective]

variable (k : SecretKey)

@[simp]
theorem id_bare : k.bare.id = k.id := rfl

@[simp]
theorem isDisposed_bare : k.bare.isDisposed = k.isDisposed :=
  Option.isNone_map

theorem material_bare : k.bare.material = k.material.map (·.effective) := rfl

theorem read_bare : k.bare.read = k.read.map (·.effective) := by
  rw [read, read, material_bare]
  cases k.material <;> rfl

/-- What is asked of a key apart from its material and its own type. -/
theorem ask_bare {α : Type} (property : SecretKey → α) (h : property k.bare = property k) :
    k.bare.ask property = k.ask property := by
  rw [ask, ask, read_bare, h]
  cases k.read <;> rfl

theorem isPrivate_bare : k.bare.isPrivate = k.isPrivate := by
  rw [isPrivate, isPrivate, read_bare]
  cases k.read with
  | error cause => rfl
  | ok m => exact congrArg Except.ok m.isPrivate_effective

end SecretKey

/-! ### Binding -/

theorem checkBinding_bare (family : Family) (k : SecretKey) (a : Algorithm) :
    checkBinding family k.bare a = checkBinding family k a := by
  have htype : k.bare.effectiveType = k.effectiveType := k.ask_bare _ rfl
  have hsize : k.bare.sizeBits = k.sizeBits := k.ask_bare _ rfl
  rw [checkBinding, checkBinding, htype, hsize]

theorem isCandidate_bare (a : Algorithm) (s : KeySelector) (k : SecretKey) :
    isCandidate a s k.bare = isCandidate a s k := by
  rw [isCandidate, isCandidate, k.isDisposed_bare]
  rfl

theorem candidates_bare (a : Algorithm) (keys : List SecretKey) (s : KeySelector) :
    candidates a (keys.map (·.bare)) s = (candidates a keys s).map (·.bare) := by
  have hsame : isCandidate a s ∘ SecretKey.bare = isCandidate a s :=
    funext fun k => isCandidate_bare a s k
  by_cases hkeyed : a.keyType = .none
  · rw [candidates, candidates, if_pos hkeyed, if_pos hkeyed]
    rfl
  · rw [candidates, candidates, if_neg hkeyed, if_neg hkeyed, List.filter_map, hsame]

namespace Factory

/-- The provider with another key in the place of its own. -/
def withKey (k : SecretKey) : (f : Factory) → f.Provider → f.Provider
  | signing, s => { s with key := k }
  | sealing, s => { s with key := k }
  | wrapping _, w => { w with key := k }
  | compressing _, c => c

theorem bind_of_bare_eq (f : Factory) {k k' : SecretKey} (h : k.bare = k'.bare) (a : Algorithm) :
    f.bind k' a = (f.bind k a).map (f.withKey k') := by
  have hcheck : ∀ family, checkBinding family k' a = checkBinding family k a := fun family => by
    rw [← checkBinding_bare family k', ← h, checkBinding_bare]
  have hbits : k'.profile.bits = k.profile.bits := congrArg (·.profile.bits) h.symm
  have hsize : Signer.sizeOf k' = Signer.sizeOf k := by
    funext m
    cases m <;> simp only [Signer.sizeOf, hbits]
  cases f <;>
    simp only [bind, Signer.bind, Sealer.bind, KeyWrapper.bind, Compressor.bind, hcheck, hsize] <;>
    cases checkBinding _ k a <;> simp only [error_bind, ok_bind] <;>
    cases a.method <;> rfl

end Factory

/-! ### Signing -/

namespace Signer

theorem rsaSecret_effective (m : KeyMaterial) : rsaSecret m.effective = rsaSecret m := by
  rw [rsaSecret, rsaSecret, m.effective_effective]

theorem matchesMaterial_effective (method : SignatureMethod) (m : KeyMaterial) :
    matchesMaterial method m.effective = matchesMaterial method m := by
  funext data signature
  unfold matchesMaterial
  rw [m.effective_effective]

/-- The signer with the certificate taken off its key. -/
def bare (s : Signer) : Signer := { s with key := s.key.bare }

theorem bind_bare (k : SecretKey) (a : Algorithm) : bind k.bare a = (bind k a).map (·.bare) := by
  rw [bind, bind, checkBinding_bare]
  cases checkBinding .signature k a with
  | error cause => rfl
  | ok _ =>
    rw [ok_bind, ok_bind]
    cases a.method <;> rfl

theorem sign_bare (s : Signer) : s.bare.sign = s.sign := by
  funext data
  simp only [sign, bare, SecretKey.read_bare, Draw.ofExcept_map_bind,
    KeyMaterial.effective_effective, rsaSecret_effective]

theorem signInto_bare (s : Signer) : s.bare.signInto = s.signInto := by
  funext data buffer
  rw [signInto, signInto, sign_bare]
  rfl

theorem signOver_bare (s : Signer) : s.bare.signOver = s.signOver := by
  funext data buffer e
  rw [signOver, signOver, sign_bare]
  rfl

theorem verify_bare (s : Signer) : s.bare.verify = s.verify := by
  funext data signature
  rw [verify, verify, bare, SecretKey.read_bare]
  cases s.key.read with
  | error cause => rfl
  | ok m => simp only [map_ok, matchesMaterial_effective]

/-- What does not change when the certificate is taken off is the same for two keys that differ
in it alone. -/
theorem eq_of_bare_eq {α : Type} {f : Signer → α} (hf : ∀ s, f (bare s) = f s) {k k' : SecretKey}
    (h : k.bare = k'.bare) (s : Signer) : f { s with key := k } = f { s with key := k' } := by
  rw [← hf, ← hf { s with key := k' }, bare, bare, h]

end Signer

/-! ### Wrapping -/

namespace KeyWrapper

theorem symmetricKey_effective (m : KeyMaterial) : symmetricKey m.effective = symmetricKey m := by
  rw [symmetricKey, symmetricKey, m.effective_effective]

theorem ecKey_effective (m : KeyMaterial) : ecKey m.effective = ecKey m := by
  rw [ecKey, ecKey, m.effective_effective]

theorem unwrapRsa_effective (h : HashId) (m : KeyMaterial) :
    unwrapRsa h m.effective = unwrapRsa h m := by
  funext encrypted length
  rw [unwrapRsa, unwrapRsa, m.effective_effective]

/-- The wrapper with the certificate taken off its key. -/
def bare (w : KeyWrapper) : KeyWrapper := { w with key := w.key.bare }

theorem bind_bare (limits : PasswordLimits) (k : SecretKey) (a : Algorithm) :
    bind limits k.bare a = (bind limits k a).map (·.bare) := by
  rw [bind, bind, checkBinding_bare]
  cases checkBinding .keyManagement k a with
  | error cause => rfl
  | ok _ =>
    rw [ok_bind, ok_bind]
    cases a.method <;> rfl

theorem wrapMaterial_bare (w : KeyWrapper) (m : KeyMaterial) :
    w.bare.wrapMaterial m.effective = w.wrapMaterial m := by
  funext contentKey
  simp only [wrapMaterial, wrapRsa, bare, symmetricKey_effective, ecKey_effective,
    KeyMaterial.effective_effective]

theorem read_bare (w : KeyWrapper) : w.bare.key.read = w.key.read.map (·.effective) :=
  w.key.read_bare

theorem wrap_bare (w : KeyWrapper) : w.bare.wrap = w.wrap := by
  funext contentKey enc
  simp only [wrap, read_bare, Draw.ofExcept_map_bind, wrapMaterial_bare]

theorem shareDirectly_bare (w : KeyWrapper) : w.bare.shareDirectly = w.shareDirectly := by
  funext enc length
  simp only [shareDirectly, read_bare, map_bind_except, symmetricKey_effective]

theorem agreeDirectly_bare (w : KeyWrapper) : w.bare.agreeDirectly = w.agreeDirectly := by
  funext enc length
  simp only [agreeDirectly, read_bare, Draw.ofExcept_map_bind, ecKey_effective]
  rfl

theorem wrapNew_bare (w : KeyWrapper) : w.bare.wrapNew = w.wrapNew := by
  funext enc
  have hmethod : w.bare.method = w.method := rfl
  rw [wrapNew, wrapNew, hmethod, shareDirectly_bare, agreeDirectly_bare, wrap_bare]

theorem unwrapMaterial_bare (w : KeyWrapper) (m : KeyMaterial) :
    w.bare.unwrapMaterial m.effective = w.unwrapMaterial m := by
  funext encrypted parameters enc length
  simp only [unwrapMaterial, unwrapAgreed, unwrapWithPassword, bare, symmetricKey_effective,
    ecKey_effective, unwrapRsa_effective]

theorem unwrap_bare (w : KeyWrapper) : w.bare.unwrap = w.unwrap := by
  funext encrypted parameters enc
  simp only [unwrap, read_bare, Draw.ofExcept_map_bind, unwrapMaterial_bare]

/-- What does not change when the certificate is taken off is the same for two keys that differ
in it alone. -/
theorem eq_of_bare_eq {α : Type} {f : KeyWrapper → α} (hf : ∀ w, f (bare w) = f w)
    {k k' : SecretKey} (h : k.bare = k'.bare) (w : KeyWrapper) :
    f { w with key := k } = f { w with key := k' } := by
  rw [← hf, ← hf { w with key := k' }, bare, bare, h]

end KeyWrapper

/-! ### Reading tokens -/

namespace Recipient

/-- The recipient with the certificates taken off the keys. -/
def bare (r : Recipient) : Recipient := { r with keys := r.keys.map (·.bare) }

theorem keysFor_bare (r : Recipient) (a : Algorithm) (code : String) (h : Header) :
    r.bare.keysFor a code h = (r.keysFor a code h).map (·.map (·.bare)) := by
  rw [keysFor, keysFor, bare, candidates_bare]
  cases candidates a r.keys ⟨h.kid?, .decode⟩ <;> rfl

theorem verifying_bare (a : Algorithm) (input signature : Bytes) (fault : Option Fault)
    (attempted : Bool) (keys : List SecretKey) :
    verifying a input signature fault attempted (keys.map (·.bare)) =
      (verifying a input signature fault attempted keys).map (·.bare) := by
  induction keys generalizing fault attempted with
  | nil => rfl
  | cons k rest ih =>
    rw [List.map_cons, verifying, verifying, Signer.bind_bare]
    cases Signer.bind k a with
    | error cause => exact ih (some cause) attempted
    | ok s =>
      simp only [map_ok, Signer.verify_bare]
      split
      · rfl
      · exact ih fault true

theorem openSigned_bare (r : Recipient) : r.bare.openSigned = r.openSigned := by
  funext t
  simp only [openSigned, keysFor_bare, map_bind_except, verifying_bare, SecretKey.id_bare]
  rfl

theorem opening_bare (p : Parcel) (fault : Option Fault) (attempted : Bool)
    (keys : List SecretKey) (e : Entropy) :
    opening p fault attempted (keys.map (·.bare)) e =
      ((opening p fault attempted keys e).1.map fun found => (found.1.bare, found.2),
        (opening p fault attempted keys e).2) := by
  induction keys generalizing fault attempted e with
  | nil => rfl
  | cons k rest ih =>
    rw [List.map_cons, opening, opening, KeyWrapper.bind_bare]
    cases KeyWrapper.bind p.limits k p.algorithm with
    | error cause => exact ih (some cause) attempted e
    | ok w =>
      simp only [map_ok, KeyWrapper.unwrap_bare]
      -- A key that unwraps is not the right one yet: the content must open under what it gives.
      split
      · split
        · rfl
        · exact ih fault true _
      · split
        · rfl
        · exact ih fault true _

theorem openSealed_bare (r : Recipient) : r.bare.openSealed = r.openSealed := by
  funext t e
  have hparcel : r.bare.parcelOf t = r.parcelOf t := rfl
  rw [openSealed, openSealed, hparcel]
  cases r.parcelOf t with
  | error cause => rfl
  | ok parts =>
    obtain ⟨p, zip⟩ := parts
    rw [Draw.ofExcept_ok_bind, Draw.ofExcept_ok_bind]
    dsimp only
    rw [keysFor_bare, Draw.ofExcept_map_bind]
    cases r.keysFor p.algorithm t.alg t.header with
    | error cause => rfl
    | ok keys =>
      rw [Draw.ofExcept_ok_bind, Draw.ofExcept_ok_bind, Draw.bind_apply, Draw.bind_apply,
        opening_bare]
      rcases opening p none false keys e with ⟨cause | found, e'⟩ <;> rfl

theorem openNested_bare (r : Recipient) : r.bare.openNested = r.openNested := by
  funext outer
  rw [openNested, openNested, openSigned_bare]
  rfl

theorem openScreened_bare (r : Recipient) : r.bare.openScreened = r.openScreened := by
  funext t
  cases t with
  | signed t => rw [openScreened, openScreened, openSigned_bare]
  | encrypted t =>
    rw [openScreened, openScreened, openSealed_bare, openNested_bare]
    rfl

theorem decode_bare (r : Recipient) : r.bare.decode = r.decode := by
  funext token
  rw [decode, decode, openScreened_bare]
  rfl

end Recipient

/-! ### Making tokens -/

/-- The source with the certificate taken off the key that is given. -/
def KeySource.bare : KeySource → KeySource
  | key k => key k.bare
  | collection id kid => collection id kid

def SigningCredentials.bare (c : SigningCredentials) : SigningCredentials :=
  { c with source := c.source.bare }

def EncryptingCredentials.bare (c : EncryptingCredentials) : EncryptingCredentials :=
  { c with source := c.source.bare }

def Credentials.bare (c : Credentials) : Credentials :=
  ⟨c.signing.map (·.bare), c.encrypting.map (·.bare)⟩

/-- The collections with the certificates taken off their keys. -/
def KeyRings.bare (rings : KeyRings) : KeyRings :=
  fun id => (rings id).map (·.map (·.bare))

theorem selectKey_bare (a : Algorithm) (keys : List SecretKey) (s : KeySelector) :
    selectKey a (keys.map (·.bare)) s = (selectKey a keys s).map (·.bare) := by
  rw [selectKey, selectKey, candidates_bare]
  cases candidates a keys s <;> rfl

theorem KeySource.bind_bare {β : Type} {make : SecretKey → Algorithm → Except Fault β}
    {strip : β → β} (hmake : ∀ k a, make k.bare a = (make k a).map strip) (source : KeySource)
    (rings : KeyRings) (family : Family) (known : Known) (code : String) (now : Int) :
    source.bare.bind rings.bare make family known code now =
      (source.bind rings make family known code now).map strip := by
  -- Either source looks the algorithm up, picks a key for it and binds the two.
  have hresolve : ∀ all (pick : Algorithm → Except Fault SecretKey),
      (do let a ← Algorithm.find all family code
          let k ← (pick a).map (·.bare)
          make k a) =
        (do let a ← Algorithm.find all family code
            let k ← pick a
            make k a).map strip := by
    intro all pick
    cases Algorithm.find all family code with
    | error cause => rfl
    | ok a =>
      cases hk : pick a with
      | error cause => simp [hk]
      | ok k => simpa [hk] using hmake k a
  cases source with
  | key k =>
    cases known with
    | error cause => rfl
    | ok all =>
      refine Eq.trans ?_ (hresolve all fun a =>
        .ok (if a.keyType = .none then SecretKey.empty else k))
      simp only [bind, bare, Except.bind, resolveWithKey, map_ok, ok_bind]
      refine bind_congr fun a => ?_
      split <;> rfl
  | collection id kid =>
    simp only [bind, bare, KeyRings.bare, map_bind_except]
    cases rings id with
    | error cause => rfl
    | ok keys =>
      cases known with
      | error cause => rfl
      | ok all =>
        refine Eq.trans ?_ (hresolve all fun a => selectKey a keys ⟨kid, .encode now⟩)
        simp only [ok_bind, resolve, selectKey_bare]

namespace Issuer

/-- The issuer with the certificates taken off the keys of its collections. -/
def bare (i : Issuer) : Issuer := { i with rings := i.rings.bare }

variable (i : Issuer)

theorem signer_bare (c : SigningCredentials) :
    i.bare.signer c.bare = (i.signer c).map (·.bare) :=
  KeySource.bind_bare Signer.bind_bare ..

theorem sign_bare (payload : Bytes) (c : SigningCredentials) (extra : Header) :
    i.bare.sign payload c.bare extra = i.sign payload c extra := by
  rw [sign, sign, signer_bare]
  cases i.signer c with
  | error cause => rfl
  | ok s =>
    refine funext fun e => ?_
    rw [map_ok, mapError_ok, mapError_ok, Draw.ofExcept_ok_bind, Draw.ofExcept_ok_bind,
      Signer.sign_bare]
    rfl

theorem wrapper_bare (c : EncryptingCredentials) :
    i.bare.wrapper c.bare = (i.wrapper c).map (·.bare) := by
  have hbind := KeySource.bind_bare (KeyWrapper.bind_bare i.options.passwordLimits) c.source i.rings
    .keyManagement i.known c.algorithm i.now
  refine (congrArg (Except.map (·.withParty c.party)) hbind).trans ?_
  rw [wrapper]
  cases c.source.bind i.rings (KeyWrapper.bind i.options.passwordLimits) .keyManagement i.known
    c.algorithm i.now <;> rfl

theorem sealWith_bare (payload : Bytes) (enc : Algorithm) (w : KeyWrapper)
    (zip : Option Compressor) (cty : Option String) (extra : Header) :
    i.bare.sealWith payload enc w.bare zip cty extra = i.sealWith payload enc w zip cty extra := by
  rw [sealWith, sealWith, KeyWrapper.wrapNew_bare]
  rfl

theorem encrypt_bare (payload : Bytes) (c : EncryptingCredentials) (cty : Option String)
    (extra : Header) : i.bare.encrypt payload c.bare cty extra = i.encrypt payload c cty extra := by
  simp only [encrypt, wrapper_bare, Draw.ofExcept_map_bind, sealWith_bare]
  rfl

theorem encode_bare (payload : Bytes) (c : Credentials) (extra : Header) :
    i.bare.encode payload c.bare extra = i.encode payload c extra := by
  obtain ⟨signing | s, encrypting | e⟩ := c
  · rfl
  · exact i.encrypt_bare payload e none extra
  · exact i.sign_bare payload s extra
  · exact congrArg₂ (· >>= ·) (i.sign_bare payload s extra)
      (funext fun inner => i.encrypt_bare _ e _ _)

end Issuer

/-! ### Exports -/

/-- The members without the certificate and its digest. -/
def Jwk.unchained (j : Jwk) : Jwk := { j with x5c := none, x5tS256 := none }

namespace SecretKey

theorem exportPair_frame (p : KeyPair) (withPrivate : Bool) (frame : Jwk)
    (chain : Option (List String)) (digest : Option String) :
    exportPair p withPrivate { frame with x5c := chain, x5tS256 := digest } =
      (exportPair p withPrivate frame).map fun j =>
        { j with x5c := chain, x5tS256 := digest } := by
  cases p with
  | ec k => rfl
  | rsa k =>
    simp only [exportPair, exportRsa]
    cases k.secret with
    | none => rfl
    | some s =>
      cases withPrivate with
      | false => rfl
      | true =>
        simp only [if_true]
        split <;> rfl

theorem toJwk_certificate (id : Option String) (der : Bytes) (p : KeyPair) (metadata : KeyMetadata)
    (withPrivate : Bool) :
    (make id (.certificate der p) metadata).toJwk withPrivate =
      ((make id (.pair p) metadata).toJwk withPrivate).map fun j =>
        { j with
          x5c := some [Base64.encodePadded der]
          x5tS256 := bytesText (KeyMaterial.certificateDigest der) } :=
  exportPair_frame p withPrivate (make id (.pair p) metadata).jwkFrame _ _

theorem toJwk_bare (k : SecretKey) (withPrivate : Bool) :
    k.bare.toJwk withPrivate = (k.toJwk withPrivate).map (·.unchained) := by
  rw [toJwk, toJwk, read_bare]
  cases k.read with
  | error cause => rfl
  | ok m =>
    cases m with
    | none => rfl
    | symmetric bytes => cases withPrivate <;> rfl
    | pair p => exact exportPair_frame p withPrivate k.jwkFrame none none
    | certificate der p =>
      -- The chain and the digest that are put into the frame are taken out again.
      simp only [map_ok, ok_bind, KeyMaterial.effective, exportPair_frame]
      refine (exportPair_frame p withPrivate k.jwkFrame none none).trans ?_
      cases exportPair p withPrivate k.jwkFrame <;> rfl

/-! ### One key in the place of another -/

/-- Nothing that is asked of either key, or of what it is bound to, tells the two apart; only the
certificate shows in an export. -/
structure ActsAs (k k' : SecretKey) : Prop where
  keyId : k.keyId = k'.keyId
  hints : k.hints = k'.hints
  effectiveType : k.effectiveType = k'.effectiveType
  sizeBits : k.sizeBits = k'.sizeBits
  isPrivate : k.isPrivate = k'.isPrivate
  isCandidate : ∀ a s, isCandidate a s k = isCandidate a s k'
  bind : ∀ (f : Factory) a, f.bind k' a = (f.bind k a).map (f.withKey k')
  sign : ∀ s : Signer, { s with key := k }.sign = { s with key := k' }.sign
  signInto : ∀ s : Signer, { s with key := k }.signInto = { s with key := k' }.signInto
  signOver : ∀ s : Signer, { s with key := k }.signOver = { s with key := k' }.signOver
  verify : ∀ s : Signer, { s with key := k }.verify = { s with key := k' }.verify
  wrap : ∀ w : KeyWrapper, { w with key := k }.wrap = { w with key := k' }.wrap
  wrapNew : ∀ w : KeyWrapper, { w with key := k }.wrapNew = { w with key := k' }.wrapNew
  unwrap : ∀ w : KeyWrapper, { w with key := k }.unwrap = { w with key := k' }.unwrap
  toJwk : ∀ withPrivate,
    (k.toJwk withPrivate).map (·.unchained) = (k'.toJwk withPrivate).map (·.unchained)

/-- What does not change when the certificate is taken off is the same for both keys. -/
theorem same_of_bare_eq {α : Type} {k k' : SecretKey} (h : k.bare = k'.bare) {f : SecretKey → α}
    (hf : ∀ k, f k.bare = f k) : f k = f k' := by
  rw [← hf k, h, hf]

theorem actsAs_of_bare_eq {k k' : SecretKey} (h : k.bare = k'.bare) : k.ActsAs k' where
  keyId := same_of_bare_eq h fun k => k.ask_bare _ rfl
  hints := same_of_bare_eq h fun k => k.ask_bare _ rfl
  effectiveType := same_of_bare_eq h fun k => k.ask_bare _ rfl
  sizeBits := same_of_bare_eq h fun k => k.ask_bare _ rfl
  isPrivate := same_of_bare_eq h isPrivate_bare
  isCandidate a s := same_of_bare_eq h (isCandidate_bare a s)
  bind f a := f.bind_of_bare_eq h a
  sign := Signer.eq_of_bare_eq Signer.sign_bare h
  signInto := Signer.eq_of_bare_eq Signer.signInto_bare h
  signOver := Signer.eq_of_bare_eq Signer.signOver_bare h
  verify := Signer.eq_of_bare_eq Signer.verify_bare h
  wrap := KeyWrapper.eq_of_bare_eq KeyWrapper.wrap_bare h
  wrapNew := KeyWrapper.eq_of_bare_eq KeyWrapper.wrapNew_bare h
  unwrap := KeyWrapper.eq_of_bare_eq KeyWrapper.unwrap_bare h
  toJwk withPrivate := by rw [← toJwk_bare, ← toJwk_bare, h]

/-- A key over a certificate and the key over the pair in it give the same results: among
candidates, in what they are bound to, and in tokens that are made or read with any keys and the
certificates put around some of them. -/
theorem actsAs_of_certificate (id : Option String) (der : Bytes) (p : KeyPair)
    (metadata : KeyMetadata) :
    KeyMaterial.certify der (.pair p) = .ok (.certificate der p) ∧
      (make id (.certificate der p) metadata).bare = make id (.pair p) metadata ∧
      (make id (.pair p) metadata).bare = make id (.pair p) metadata ∧
      (make id (.certificate der p) metadata).ActsAs (make id (.pair p) metadata) ∧
      (make id (.certificate der p) metadata).dispose.ActsAs (make id (.pair p) metadata).dispose ∧
      (∀ withPrivate, (make id (.certificate der p) metadata).toJwk withPrivate =
        ((make id (.pair p) metadata).toJwk withPrivate).map fun j =>
          { j with
            x5c := some [Base64.encodePadded der]
            x5tS256 := bytesText (KeyMaterial.certificateDigest der) }) ∧
      (∀ (keys keys' : List SecretKey) (a : Algorithm) (s : KeySelector),
        keys.map (·.bare) = keys'.map (·.bare) →
          (candidates a keys s).map (·.bare) = (candidates a keys' s).map (·.bare)) ∧
      (∀ r r' : Recipient, r.bare = r'.bare → r.decode = r'.decode) ∧
      ∀ (i i' : Issuer) (c c' : Credentials), i.bare = i'.bare → c.bare = c'.bare →
        ∀ payload extra, i.encode payload c extra = i'.encode payload c' extra := by
  refine ⟨rfl, rfl, rfl, actsAs_of_bare_eq rfl, actsAs_of_bare_eq rfl,
    toJwk_certificate id der p metadata, fun keys keys' a s hkeys => ?_, fun r r' hr => ?_,
    fun i i' c c' hi hc payload extra => ?_⟩
  · rw [← candidates_bare, hkeys, candidates_bare]
  · rw [← r.decode_bare, hr, r'.decode_bare]
  · rw [← i.encode_bare, hi, hc, i'.encode_bare]

/-- A public point, behind a certificate and without it, as the only key or next to another. -/
theorem actsAs_of_certificate_point :
    let p : KeyPair := .ec (.ofPoint (c := .p256)
      ⟨CurveId.p256.data.baseX, CurveId.p256.data.baseY, CurveId.p256.contains_base⟩)
    let cert := make (some "a") (.certificate [1, 2, 3] p) {}
    let plain := make (some "a") (.pair p) {}
    let sealed (k : SecretKey) : Credentials :=
      ⟨none, some ⟨"ECDH-ES", "A128GCM", none, .key k, {}⟩⟩
    (∃ w w', KeyWrapper.bind .standard cert (.agreement "ECDH-ES" none) = .ok w ∧
        KeyWrapper.bind .standard plain (.agreement "ECDH-ES" none) = .ok w' ∧
        w.wrapNew = w'.wrapNew) ∧
      (cert.toJwk false).map (·.x5c) = .ok (some ["AQID"]) ∧
      (∀ (a : Algorithm) (s : KeySelector) (k : SecretKey),
        (candidates a [k, cert] s).length = (candidates a [k, plain] s).length) ∧
      (∀ (r : Recipient) (k : SecretKey),
        { r with keys := [k, cert] }.decode = { r with keys := [k, plain] }.decode) ∧
      ∀ (i : Issuer) (payload : Bytes) (extra : Header),
        i.encode payload (sealed cert) extra = i.encode payload (sealed plain) extra := by
  intro p cert plain sealed
  obtain ⟨-, -, -, hacts, -, hexport, hcandidates, hdecode, hencode⟩ :=
    actsAs_of_certificate (some "a") [1, 2, 3] p {}
  have hchain : Base64.encodePadded [1, 2, 3] = "AQID" := by decide
  refine ⟨⟨_, _, rfl, rfl, hacts.wrapNew ⟨cert, _, _, _, _⟩⟩, ?_, fun a s k => ?_,
    fun r k => hdecode _ _ rfl,
    fun i payload extra => hencode i i (sealed cert) (sealed plain) rfl rfl payload extra⟩
  · rw [hexport, hchain]
    rfl
  · simpa using congrArg List.length (hcandidates [k, cert] [k, plain] a s rfl)

end SecretKey

end TokenSeal
