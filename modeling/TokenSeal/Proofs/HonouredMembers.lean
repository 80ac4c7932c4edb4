import TokenSeal.Proofs.Authentication
import TokenSeal.Proofs.Chunks
import TokenSeal.Proofs.ExtraMembers
import TokenSeal.Proofs.WireFormat

/-! What a header says about the key and the compression of its layer is followed, if it says so in a
text. A layer is settled by the keys with the name that is told and by no others, and what is taken
out of it is what the decompressor with the name that is told makes of the deciphered text. -/

namespace TokenSeal

/-! ### Compression -/

/-- What the decompressor with a name makes of a text, within a limit. -/
inductive Compressor.Expands (limit : Nat) : String → Bytes → Bytes → Prop
  | none {text : Bytes} (fits : text.length ≤ limit) : Expands limit "none" text text
  | deflate {text payload : Bytes} (stream : Deflate.Inflates text payload)
      (fits : payload.length ≤ limit) : Expands limit "DEF" text payload

theorem Issuer.expands_of_compressor {o : Options} {code : String} {c : Compressor}
    {text payload : Bytes} (hc : compressor o (.ok Algorithm.builtin) code = .ok c)
    (h : c.decompress text = .ok payload) :
    Compressor.Expands o.maxDecompressedSize code text payload := by
  obtain ⟨-, hlimit⟩ := compressor_eq_ok hc
  obtain ⟨rfl, hmethod⟩ | ⟨rfl, hmethod, -⟩ := compressor_of_builtin hc
  · simp only [Compressor.decompress, hmethod, hlimit] at h
    split at h
    · cases h
    · next hfits =>
      cases h
      exact .none (Nat.not_lt.1 hfits)
  · simp only [Compressor.decompress, hmethod, hlimit] at h
    obtain ⟨hstream, hfits⟩ := Compressor.inflate_eq_ok.1 h
    exact .deflate hstream hfits

namespace Recipient

/-! ### Keys -/

/-- A layer is settled by the key with an id: that one was found, no others were looked at, and with
any other keys around the ones with this id the layer is settled in the same way. -/
structure KeepsTo {α : Type} (id : String) (a : Algorithm) (h : Header) (keys : List SecretKey)
    (k : SecretKey) (settled : List SecretKey → α) : Prop where
  found : k ∈ keys ∧ k.id = some id
  tried : ∀ other ∈ candidates a keys ⟨h.kid?, .decode⟩, other.id = some id
  alone : ∀ keys', keys'.filter (·.id = some id) = keys.filter (·.id = some id) →
    settled keys' = settled keys

section Named

variable {a : Algorithm} {h : Header} {keys keys' : List SecretKey} {id : String}

theorem contenders_of_named (hkid : h.get? "kid" = some (.string id)) (hkeyed : a.keyType ≠ .none) :
    contenders a h keys = (keys.filter (·.id = some id)).filter fun k =>
      !k.isDisposed && decide (k.profile.effective = a.keyType) := by
  rw [contenders, if_neg hkeyed, List.filter_filter]
  refine List.filter_congr fun k _ => ?_
  rw [hkid]

theorem keysFor_of_named {r : Recipient} (hkid : h.get? "kid" = some (.string id))
    (hkeyed : a.keyType ≠ .none)
    (hsame : keys.filter (·.id = some id) = r.keys.filter (·.id = some id)) (code : String) :
    { r with keys }.keysFor a code h = r.keysFor a code h := by
  have hcontenders : contenders a h keys = contenders a h r.keys := by
    rw [contenders_of_named hkid hkeyed, hsame, ← contenders_of_named hkid hkeyed]
  rw [keysFor_eq, keysFor_eq, hcontenders]

theorem keepsTo_of_named {α : Type} {k : SecretKey} {settled : List SecretKey → α}
    (hkid : h.get? "kid" = some (.string id)) (hkeyed : a.keyType ≠ .none)
    (hk : k ∈ contenders a h keys)
    (halone : ∀ keys', keys'.filter (·.id = some id) = keys.filter (·.id = some id) →
      settled keys' = settled keys) : KeepsTo id a h keys k settled := by
  have hnamed : ∀ other ∈ contenders a h keys, other ∈ keys ∧ other.id = some id := by
    intro other hother
    rw [contenders_of_named hkid hkeyed] at hother
    have hmem := List.mem_filter.1 (List.mem_filter.1 hother).1
    exact ⟨hmem.1, of_decide_eq_true hmem.2⟩
  refine ⟨hnamed k hk, fun other hother => ?_, halone⟩
  rw [candidates_eq_contenders] at hother
  exact (hnamed other hother).2

end Named

/-! ### Layers -/

/-- The key opens a parcel, and this is what it deciphers of it. -/
def Parcel.DecipheredBy (p : Parcel) (k : SecretKey) (text : Bytes) : Prop :=
  ∃ w contentKey e e', KeyWrapper.bind p.limits k p.algorithm = .ok w ∧
    w.unwrap p.encryptedKey p.parameters p.enc e = (.ok contentKey, e') ∧
      p.contentUnder contentKey = .ok text

/-- A signed layer keeps to the key that its header names. -/
structure SignedHonours (r : Recipient) (p : SignedParts) (c : SignedReading) (k : SecretKey) :
    Prop where
  under : r.SignedUnder p c k
  kid : ∀ id, c.header.get? "kid" = some (.string id) → c.algorithm.keyType ≠ .none →
    KeepsTo id c.algorithm c.header r.keys k fun keys => { r with keys }.settleSigned p c

/-- An encrypted layer keeps to the key that its header names, and its content comes out of the
decompressor that the header names, or as it was deciphered if there is no such member. -/
structure SealedHonours (r : Recipient) (p : SealedParts) (c : SealedReading) (k : SecretKey)
    (payload : Bytes) : Prop where
  under : r.SealedUnder p c k payload
  kid : ∀ id, c.header.get? "kid" = some (.string id) → c.parcel.algorithm.keyType ≠ .none →
    KeepsTo id c.parcel.algorithm c.header r.keys k fun keys => { r with keys }.settleSealed c
  zip : ∃ text, c.parcel.DecipheredBy k text ∧
    (∀ code, c.header.get? "zip" = some (.string code) →
      Compressor.Expands r.options.maxDecompressedSize code text payload) ∧
    (c.header.get? "zip" = none → payload = text)

/-- What is read of a token, with the members of each of its headers honoured. -/
inductive Honours (r : Recipient) (token : String) : DecodedToken → Prop
  | signed {p : SignedParts} {c : SignedReading} {k : SecretKey}
      (split : splitDots token = [p.header, p.payload, p.signature])
      (signed : r.SignedHonours p c k) :
      Honours r token ⟨c.header, c.payload, k.id, none⟩
  | encrypted {p : SealedParts} {c : SealedReading} {k : SecretKey} {payload : Bytes}
      (split : splitDots token = [p.header, p.encryptedKey, p.iv, p.ciphertext, p.tag])
      (opened : r.SealedHonours p c k payload) :
      Honours r token ⟨c.header, payload, k.id, none⟩
  | nested {p : SealedParts} {c : SealedReading} {k : SecretKey} {payload : Bytes} {text : String}
      {q : SignedParts} {d : SignedReading} {k' : SecretKey}
      (split : splitDots token = [p.header, p.encryptedKey, p.iv, p.ciphertext, p.tag])
      (opened : r.SealedHonours p c k payload)
      (inside : Bytes.toText? payload = some text)
      (inner : splitDots text = [q.header, q.payload, q.signature])
      (signed : r.SignedHonours q d k') :
      Honours r token ⟨d.header, d.payload, k'.id, some c.header⟩

section Layers

variable {r : Recipient} {k : SecretKey}

theorem SignedUnder.honours {p : SignedParts} {c : SignedReading} (h : r.SignedUnder p c k) :
    r.SignedHonours p c k where
  under := h
  kid := by
    intro id hkid hkeyed
    refine keepsTo_of_named hkid hkeyed (List.mem_of_find?_eq_some h.found) fun keys hsame => ?_
    simp only [settleSigned, keysFor_of_named hkid hkeyed hsame]

theorem SealedUnder.zip {p : SealedParts} {c : SealedReading} {payload : Bytes}
    (h : r.SealedUnder p c k payload) (hknown : r.known = .ok Algorithm.builtin) :
    ∃ text, c.parcel.DecipheredBy k text ∧
      (∀ code, c.header.get? "zip" = some (.string code) →
        Compressor.Expands r.options.maxDecompressedSize code text payload) ∧
      (c.header.get? "zip" = none → payload = text) := by
  obtain ⟨w, contentKey, e, e', text, hbind, hunwrap, htext, hexpanded⟩ := h.opens
  have hzip := h.reads.zip
  rw [Header.zip?, hknown] at hzip
  refine ⟨text, ⟨w, contentKey, e, e', hbind, hunwrap, htext⟩, fun code hcode => ?_, fun hnone => ?_⟩
  · rw [Header.text?_eq_some.2 hcode] at hzip
    obtain ⟨z, hz, hsome⟩ := bind_eq_ok.1 hzip
    rw [← Except.ok.inj hsome] at hexpanded
    exact Issuer.expands_of_compressor hz hexpanded
  · have habsent : c.header.text? "zip" = none := by rw [Header.text?, hnone]; rfl
    rw [habsent] at hzip
    rw [← Except.ok.inj hzip] at hexpanded
    exact (Except.ok.inj hexpanded).symm

theorem SealedUnder.honours {p : SealedParts} {c : SealedReading} {payload : Bytes}
    (h : r.SealedUnder p c k payload) (hknown : r.known = .ok Algorithm.builtin) :
    r.SealedHonours p c k payload where
  under := h
  kid := by
    intro id hkid hkeyed
    refine keepsTo_of_named hkid hkeyed h.contender fun keys hsame => ?_
    simp only [settleSealed, keysFor_of_named hkid hkeyed hsame]
  zip := h.zip hknown

end Layers

/-- Each header of a token that is accepted is honoured where it names a key or a compression in a
text: the layer was settled by a key with that id and would have been settled in the same way if there
were no others, and what was taken out of the layer is what the decompressor of that name gives. -/
theorem honours_of_decode {r : Recipient} {token : String} {t : DecodedToken} {e : Entropy}
    (hknown : r.known = .ok Algorithm.builtin) (h : (r.decode token e).1 = .ok t) :
    r.Honours token t := by
  cases accepts_of_decode h with
  | signed hsplit hsigned => exact .signed hsplit hsigned.honours
  | encrypted hsplit hopened _ => exact .encrypted hsplit (hopened.honours hknown)
  | nested hsplit hopened hinside hinner hsigned =>
    exact .nested hsplit (hopened.honours hknown) hinside hinner hsigned.honours

/-- An encrypted token that names its key, and a decompressor that leaves the text as it is. -/
theorem honours_of_decode_shared :
    let extra := Header.empty.insert "zip" (.string "none")
    let r : Recipient := ⟨plainIssuer.options, .ok Algorithm.builtin, [sharedKey]⟩
    let token := sharedToken (sharedHeader none extra) (Bytes.ofText "hi") (Entropy.scrambled 0)
    ∃ t, (r.decode token (Entropy.scrambled 1)).1 = .ok t ∧ t.payload = Bytes.ofText "hi" ∧
      t.header.get? "kid" = some (.string "e") ∧ t.header.get? "zip" = some (.string "none") ∧
      r.Honours token t := by
  intro extra r token
  have hextra : extra.IsPlain := Header.isPlain_empty.insertString _ _
  have hrender : (sharedHeader none extra).render =
      "\x7b\"alg\":\"dir\",\"enc\":\"A128GCM\",\"kid\":\"e\",\"zip\":\"none\"\x7d" := by
    cbv
  have hlen : token.utf8ByteSize ≤ plainIssuer.options.maxTokenLength :=
    length_shared (by rw [hrender]; decide) (by decide) _
  obtain ⟨z, hz, hmethod, hlimit⟩ : ∃ z, Issuer.compressor plainIssuer.options plainIssuer.known
      "none" = .ok z ∧ z.method = .identity ∧ z.limit = Compressor.defaultLimit := ⟨_, rfl, rfl, rfl⟩
  have hzip : (sharedHeader none extra).zip?.mapM
      (Issuer.compressor plainIssuer.options plainIssuer.known) = .ok (some z) := by
    rw [show (sharedHeader none extra).zip? = some "none" from rfl]
    simp [hz]
  have hexpanded : expanded (some z) (Bytes.ofText "hi") = .ok (Bytes.ofText "hi") := by
    simp only [expanded, Compressor.decompress, hmethod, hlimit]
    decide
  have hdecode := decode_shared_of_header hextra rfl rfl hlen hzip hexpanded (Entropy.scrambled 1)
  exact ⟨_, hdecode, rfl, rfl, rfl, honours_of_decode rfl hdecode⟩

/-! ### Members that are not texts -/

theorem isPlain_numbered (name : String) : (Header.empty.insert name (.integer 7)).IsPlain :=
  Header.isPlain_empty.insert name (by simp [Json.IsWhole]) (by decide)

def namelessSigner : Signer :=
  ⟨.make none (.symmetric (Bytes.zeros 32)) {}, .hmac "HS256" .sha256, .hmac .sha256, 32⟩

/-- The header of a signed token that names its key by a number. -/
def numberedHeader : Header :=
  plainIssuer.signedHeader namelessSigner (Header.empty.insert "kid" (.integer 7))

def numberedInput : String := numberedHeader.toSegment ++ "." ++ Issuer.segment (Bytes.ofText "hi")

def numberedTag : Bytes := hmac .sha256 (Bytes.zeros 32) (Bytes.ofText numberedInput)

theorem decode_numbered (e : Entropy) :
    (decode ⟨plainIssuer.options, .ok Algorithm.builtin, [zeroKey "a"]⟩
      (numberedInput ++ "." ++ Issuer.segment numberedTag) e).1 =
        .ok ⟨numberedHeader, Bytes.ofText "hi", some "a", none⟩ := by
  have hsigner : plainIssuer.signer ⟨"HS256", .key namelessSigner.key⟩ = .ok namelessSigner := rfl
  have hrender : numberedHeader.render = "\x7b\"alg\":\"HS256\",\"kid\":7\x7d" := by
    cbv
  have hlen : (numberedInput ++ "." ++ Issuer.segment numberedTag).utf8ByteSize ≤
      plainIssuer.options.maxTokenLength := by
    simp only [numberedInput, numberedTag, String.utf8ByteSize_append, Issuer.segment,
      Header.toSegment, hrender, Base64Url.utf8ByteSize_encode, length_hmac]
    decide
  let r : Recipient := ⟨plainIssuer.options, .ok Algorithm.builtin, [zeroKey "a"]⟩
  have hreads := reads_of_sign (r := r) (Bytes.ofText "hi") numberedTag rfl hsigner
    (isPlain_numbered "kid") rfl (by decide)
  have hsign : namelessSigner.sign (Bytes.ofText numberedInput) e = (.ok numberedTag, e) := rfl
  have hverifies : verifies namelessSigner.algorithm (Bytes.ofText numberedInput) numberedTag
      (zeroKey "a") = true :=
    verifies_of_sign hsigner (fun m hm => by cases hm; exact KeyMaterial.verifiesOwn_symmetric _)
      hsign
  let p : SignedParts :=
    ⟨numberedHeader.toSegment, Issuer.segment (Bytes.ofText "hi"), Issuer.segment numberedTag⟩
  have hsplit : splitDots (numberedInput ++ "." ++ Issuer.segment numberedTag) =
      [p.header, p.payload, p.signature] :=
    Issuer.splitDots_signed numberedHeader (Bytes.ofText "hi") numberedTag
  rw [decode_signed hsplit hlen]
  refine settled_eq_ok.2 ⟨_, hreads, zeroKey "a", ?_, rfl⟩
  have hcontenders : contenders namelessSigner.algorithm numberedHeader [zeroKey "a"] =
      [zeroKey "a"] := rfl
  change (contenders namelessSigner.algorithm numberedHeader [zeroKey "a"]).find? _ = _
  rw [hcontenders]
  exact List.find?_cons_of_pos hverifies

/-- A number in the place of a name is passed over: the token is verified by a key with another id,
and the content is taken as it was deciphered. -/
theorem decode_numbers :
    let extra := Header.empty.insert "zip" (.integer 7)
    let r : Recipient := ⟨plainIssuer.options, .ok Algorithm.builtin, [zeroKey "a"]⟩
    let r' : Recipient := ⟨plainIssuer.options, .ok Algorithm.builtin, [sharedKey]⟩
    let token := sharedToken (sharedHeader none extra) (Bytes.ofText "hi") (Entropy.scrambled 0)
    let e := Entropy.scrambled 1
    (∃ t, (r.decode (numberedInput ++ "." ++ Issuer.segment numberedTag) e).1 = .ok t ∧
      t.header.get? "kid" = some (.integer 7) ∧ t.keyId = some "a") ∧
    ∃ t, (r'.decode token e).1 = .ok t ∧ t.header.get? "zip" = some (.integer 7) ∧
      t.payload = Bytes.ofText "hi" := by
  intro extra r r' token e
  have hrender : (sharedHeader none extra).render =
      "\x7b\"alg\":\"dir\",\"enc\":\"A128GCM\",\"kid\":\"e\",\"zip\":7\x7d" := by
    cbv
  have hlen : token.utf8ByteSize ≤ plainIssuer.options.maxTokenLength :=
    length_shared (by rw [hrender]; decide) (by decide) _
  have hdecode := decode_shared_of_header (isPlain_numbered "zip") rfl rfl hlen rfl rfl e
  exact ⟨⟨_, decode_numbered e, rfl, rfl⟩, _, hdecode, rfl, rfl⟩

end Recipient

end TokenSeal
