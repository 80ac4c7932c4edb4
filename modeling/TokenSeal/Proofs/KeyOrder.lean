import TokenSeal.Proofs.WrapRoundTrip

/-! The keys that do not open an encrypted token do not matter: neither where they stand nor whether
they are there. -/

namespace TokenSeal

namespace Recipient

/-- None of the content keys that can be drawn for the candidates opens the content. -/
def NoStray (r : Recipient) (c : SealedReading) (e : Entropy) : Prop :=
  c.parcel.NoStray e (contenders c.parcel.algorithm c.header r.keys).length

section Settle

variable {r r' : Recipient} {c : SealedReading} {method : KeyManagement} {e e' : Entropy}

theorem settleSealed_of_openedBy (hp : c.parcel.Standard method) {k : SecretKey} {text : Bytes}
    (hmem : k ∈ contenders c.parcel.algorithm c.header r.keys) (hopen : c.parcel.OpenedBy k text)
    (hone : ∀ k' ∈ contenders c.parcel.algorithm c.header r.keys, ∀ text',
      c.parcel.OpenedBy k' text' → k' = k)
    (hstray : r.NoStray c e) :
    (r.settleSealed c e).1 = ((expanded c.zip text).mapError .fault).map fun payload =>
      ⟨c.header, payload, k.id, none⟩ := by
  have hkeys : r.keysFor c.parcel.algorithm c.alg c.header =
      .ok (contenders c.parcel.algorithm c.header r.keys) := by
    rw [keysFor_eq, if_neg]
    rw [List.isEmpty_iff]
    exact List.ne_nil_of_mem hmem
  obtain ⟨⟨k', text'⟩, hfound⟩ := hp.opening_of_openedBy contenders_live hmem hopen none false e
  obtain ⟨hmem', hopen'⟩ := hp.openedBy_of_opening contenders_live hstray hfound
  obtain rfl : k' = k := hone k' hmem' text' hopen'
  obtain rfl : text' = text := hopen'.unique hopen
  rw [settleSealed, hkeys, Draw.ofExcept_ok_bind, Draw.bind_ok (Prod.ext hfound rfl)]
  dsimp only
  cases expanded c.zip text' with
  | error cause => rw [mapError_error, Draw.ofExcept_error_bind, map_error]
  | ok payload =>
    rw [mapError_ok, Draw.ofExcept_ok_bind]
    rfl

theorem settleSealed_of_closed (hp : c.parcel.Standard method)
    (hclosed : ∀ k ∈ contenders c.parcel.algorithm c.header r.keys, ∀ text,
      ¬ c.parcel.OpenedBy k text)
    (hstray : r.NoStray c e) :
    (r.settleSealed c e).1 =
      .error (c.rejection (contenders c.parcel.algorithm c.header r.keys)) := by
  refine settleSealed_of_none hp fun found hfound => ?_
  obtain ⟨hmem, hopen⟩ := hp.openedBy_of_opening contenders_live hstray hfound
  exact hclosed found.1 hmem found.2 hopen

/-- Two lists of keys settle a token in the same way if the one key that opens it is in both or in
neither, and if they fail in the same way when it is in neither. -/
theorem settleSealed_alike (r r' : Recipient) (hp : c.parcel.Standard method)
    (hone : ∀ k ∈ contenders c.parcel.algorithm c.header r.keys,
      ∀ k' ∈ contenders c.parcel.algorithm c.header r.keys, ∀ text text',
        c.parcel.OpenedBy k text → c.parcel.OpenedBy k' text' → k = k')
    (hsame : ∀ k text, c.parcel.OpenedBy k text →
      (k ∈ contenders c.parcel.algorithm c.header r.keys ↔
        k ∈ contenders c.parcel.algorithm c.header r'.keys))
    (hkind : (c.rejection (contenders c.parcel.algorithm c.header r.keys)).kind =
      (c.rejection (contenders c.parcel.algorithm c.header r'.keys)).kind)
    (hstray : r.NoStray c e) (hstray' : r'.NoStray c e') :
    (r.settleSealed c e).1.mapError TokenError.kind =
      (r'.settleSealed c e').1.mapError TokenError.kind := by
  by_cases hany : ∃ k ∈ contenders c.parcel.algorithm c.header r.keys, ∃ text,
      c.parcel.OpenedBy k text
  · obtain ⟨k, hmem, text, hopen⟩ := hany
    have hmem' := (hsame k text hopen).1 hmem
    have hfirst := settleSealed_of_openedBy hp hmem hopen
      (fun k' hk' text' hopen' => hone k' hk' k hmem text' text hopen' hopen) hstray
    have hsecond := settleSealed_of_openedBy hp hmem' hopen
      (fun k' hk' text' hopen' =>
        hone k' ((hsame k' text' hopen').2 hk') k hmem text' text hopen' hopen) hstray'
    rw [hfirst, hsecond]
  · have hclosed : ∀ k ∈ contenders c.parcel.algorithm c.header r.keys, ∀ text,
        ¬ c.parcel.OpenedBy k text :=
      fun k hk text hopen => hany ⟨k, hk, text, hopen⟩
    have hclosed' : ∀ k ∈ contenders c.parcel.algorithm c.header r'.keys, ∀ text,
        ¬ c.parcel.OpenedBy k text :=
      fun k hk text hopen => hclosed k ((hsame k text hopen).2 hk) text hopen
    rw [settleSealed_of_closed hp hclosed hstray, settleSealed_of_closed hp hclosed' hstray',
      mapError_error, mapError_error, hkind]

end Settle

/-! ### Keys that come and go -/

theorem contenders_append_eq (a : Algorithm) (h : Header) (ha : a.keyType ≠ .none)
    (keys more : List SecretKey) :
    contenders a h (keys ++ more) = contenders a h keys ++ contenders a h more := by
  simp [contenders, ha]

theorem kind_rejection_perm (c : SealedReading) {keys keys' : List SecretKey}
    (hperm : keys.Perm keys') : (c.rejection keys).kind = (c.rejection keys').kind := by
  rw [c.kind_rejection, c.kind_rejection, hperm.any_eq, refusal_perm hperm]

theorem kind_rejection_of_legal (c : SealedReading) {keys : List SecretKey}
    (hlegal : keys.any c.parcel.isLegal = true) :
    (c.rejection keys).kind = if c.parcel.formFault?.isSome then .format else .integrity := by
  have hne : keys.isEmpty = false := by
    obtain ⟨k, hk, -⟩ := List.any_eq_true.1 hlegal
    exact List.isEmpty_eq_false_iff.2 (List.ne_nil_of_mem hk)
  have hany : (keys.any fun k => c.parcel.algorithm.isLegalSize k.profile.bits) = true := hlegal
  rw [c.kind_rejection, hlegal, refusal, hne, hany]
  simp

/-- Without an unwrapping of what is inside, the keys have their part in `settleSealed` only. -/
theorem decode_flat {o : Options} {known : Known} {keys keys' : List SecretKey} {token : String}
    {p : SealedParts} {e e' : Entropy}
    (hsplit : splitDots token = [p.header, p.encryptedKey, p.iv, p.ciphertext, p.tag])
    (hflat : o.unwrapNested = false)
    (hsettle : ∀ c, ReadsSealed ⟨o, known, keys⟩ p c →
      (settleSealed ⟨o, known, keys⟩ c e).1.mapError TokenError.kind =
        (settleSealed ⟨o, known, keys'⟩ c e').1.mapError TokenError.kind) :
    (decode ⟨o, known, keys⟩ token e).1.mapError TokenError.kind =
      (decode ⟨o, known, keys'⟩ token e').1.mapError TokenError.kind := by
  by_cases hlen : token.utf8ByteSize ≤ o.maxTokenLength
  · have hunnest : ∀ keys (x : Draw TokenError DecodedToken) e,
        ((x >>= unnest ⟨o, known, keys⟩) e).1 = (x e).1 := by
      intro keys x e
      rw [Draw.bind_apply]
      rcases x e with ⟨err | t, e₁⟩ <;> simp [unnest, hflat]
    rw [decode_sealed hsplit hlen, decode_sealed hsplit hlen, hunnest, hunnest]
    have hread : readSealed ⟨o, known, keys'⟩ p = readSealed ⟨o, known, keys⟩ p := rfl
    rw [hread]
    cases hc : readSealed ⟨o, known, keys⟩ p with
    | error err => rw [Draw.ofExcept_error_bind, Draw.ofExcept_error_bind]
    | ok c =>
      rw [Draw.ofExcept_ok_bind, Draw.ofExcept_ok_bind]
      exact hsettle c (readSealed_eq_ok.1 hc)
  · rw [decode_tooLong (Nat.not_le.1 hlen), decode_tooLong (Nat.not_le.1 hlen)]

/-- A key that opens is in a list exactly if it is in what the list has in common with another one
that differs from it by keys that do not open. -/
theorem mem_contenders_of_openedBy {c : SealedReading} {k : SecretKey} {text : Bytes}
    {keys kept more : List SecretKey} (ha : c.parcel.algorithm.keyType ≠ .none)
    (hperm : keys.Perm (kept ++ more))
    (hclosed : ∀ k ∈ contenders c.parcel.algorithm c.header more, ∀ text,
      ¬ c.parcel.OpenedBy k text)
    (hopen : c.parcel.OpenedBy k text) :
    k ∈ contenders c.parcel.algorithm c.header keys ↔
      k ∈ contenders c.parcel.algorithm c.header kept := by
  rw [(contenders_perm _ _ hperm).mem_iff, contenders_append_eq _ _ ha, List.mem_append]
  exact or_iff_left fun hmem => hclosed k hmem text hopen

section Change

variable {o : Options} {known : Known} {keys keys' : List SecretKey} {c : SealedReading}
  {method : KeyManagement} {e e' : Entropy}

theorem settleSealed_perm (hp : c.parcel.Standard method) (hperm : keys.Perm keys')
    (hone : ∀ k ∈ contenders c.parcel.algorithm c.header keys,
      ∀ k' ∈ contenders c.parcel.algorithm c.header keys, ∀ text text',
        c.parcel.OpenedBy k text → c.parcel.OpenedBy k' text' → k = k')
    (hstray : NoStray ⟨o, known, keys⟩ c e) (hstray' : NoStray ⟨o, known, keys'⟩ c e') :
    (settleSealed ⟨o, known, keys⟩ c e).1.mapError TokenError.kind =
      (settleSealed ⟨o, known, keys'⟩ c e').1.mapError TokenError.kind := by
  have hcont := contenders_perm c.parcel.algorithm c.header hperm
  exact settleSealed_alike ⟨o, known, keys⟩ ⟨o, known, keys'⟩ hp hone
    (fun _ _ _ => hcont.mem_iff) (kind_rejection_perm c hcont) hstray hstray'

/-- Keys that do not open a token may be left out and others put in, if a key of a legal size stays
or comes. -/
theorem settleSealed_exchange {kept removed added : List SecretKey}
    (hp : c.parcel.Standard method) (hkeyed : c.parcel.algorithm.keyType ≠ .none)
    (hkeys : keys.Perm (kept ++ removed)) (hkeys' : keys'.Perm (kept ++ added))
    (hone : ∀ k ∈ contenders c.parcel.algorithm c.header keys,
      ∀ k' ∈ contenders c.parcel.algorithm c.header keys, ∀ text text',
        c.parcel.OpenedBy k text → c.parcel.OpenedBy k' text' → k = k')
    (hclosed : ∀ k ∈ contenders c.parcel.algorithm c.header (removed ++ added), ∀ text,
      ¬ c.parcel.OpenedBy k text)
    (hlegal : ∃ k ∈ contenders c.parcel.algorithm c.header keys, c.parcel.isLegal k = true)
    (hlegal' : ∃ k ∈ contenders c.parcel.algorithm c.header keys', c.parcel.isLegal k = true)
    (hstray : NoStray ⟨o, known, keys⟩ c e) (hstray' : NoStray ⟨o, known, keys'⟩ c e') :
    (settleSealed ⟨o, known, keys⟩ c e).1.mapError TokenError.kind =
      (settleSealed ⟨o, known, keys'⟩ c e').1.mapError TokenError.kind := by
  rw [contenders_append_eq _ _ hkeyed] at hclosed
  have hsame : ∀ k text, c.parcel.OpenedBy k text →
      (k ∈ contenders c.parcel.algorithm c.header keys ↔
        k ∈ contenders c.parcel.algorithm c.header keys') := by
    intro k text hopen
    rw [mem_contenders_of_openedBy hkeyed hkeys
        (fun k hk => hclosed k (List.mem_append_left _ hk)) hopen,
      mem_contenders_of_openedBy hkeyed hkeys'
        (fun k hk => hclosed k (List.mem_append_right _ hk)) hopen]
  have hkind : (c.rejection (contenders c.parcel.algorithm c.header keys)).kind =
      (c.rejection (contenders c.parcel.algorithm c.header keys')).kind := by
    rw [kind_rejection_of_legal c (List.any_eq_true.2 hlegal),
      kind_rejection_of_legal c (List.any_eq_true.2 hlegal')]
  exact settleSealed_alike ⟨o, known, keys⟩ ⟨o, known, keys'⟩ hp hone hsame hkind hstray hstray'

/-- What ends the search at one key for its form ends it at every other. -/
theorem unwrap_malformed {k k' : SecretKey} {w w' : KeyWrapper} {cause : Fault}
    (hp : c.parcel.Standard method)
    (hk : k ∈ contenders c.parcel.algorithm c.header keys)
    (hk' : k' ∈ contenders c.parcel.algorithm c.header keys)
    (hbind : KeyWrapper.bind c.parcel.limits k c.parcel.algorithm = .ok w)
    (hbind' : KeyWrapper.bind c.parcel.limits k' c.parcel.algorithm = .ok w')
    (hcause : cause.kind = .format)
    (hunwrap : (w.unwrap c.parcel.encryptedKey c.parcel.parameters c.parcel.enc e).1 =
      .error cause) :
    (w'.unwrap c.parcel.encryptedKey c.parcel.parameters c.parcel.enc e').1 = .error cause := by
  rw [hp.bind (contenders_live k hk)] at hbind
  rw [hp.bind (contenders_live k' hk')] at hbind'
  split at hbind <;> cases hbind
  split at hbind' <;> cases hbind'
  -- A fault of form is either that of the parameters, whatever the key, or there is none.
  cases hform : c.parcel.formFault? with
  | some fault =>
    rw [hp.unwrap_of_formFault (contenders_live k hk) hform] at hunwrap
    rw [hp.unwrap_of_formFault (contenders_live k' hk') hform]
    exact hunwrap
  | none =>
    rw [hp.formFault?_eq] at hform
    exact absurd hcause (KeyWrapper.formFree_unwrap hform c.parcel.encryptedKey c.parcel.enc e
      cause _ (Prod.ext hunwrap rfl))

end Change

/-- If no two keys open an encrypted token, and no content key does that is drawn on the way, then
the answer does not depend on the order of the keys, nor on keys that do not open it as long as one
of a legal size is there: what comes back is the same, down to the id of the key, or the class of
the failure is. The search is cut short for the form of the parameters at every key of a legal size
or at none. -/
theorem decode_key_order {o : Options} {keys : List SecretKey} {token : String} {p : SealedParts}
    {e e' : Entropy}
    (hsplit : splitDots token = [p.header, p.encryptedKey, p.iv, p.ciphertext, p.tag])
    (hflat : o.unwrapNested = false)
    (hone : ∀ c, ReadsSealed ⟨o, .ok Algorithm.builtin, keys⟩ p c →
      ∀ k ∈ contenders c.parcel.algorithm c.header keys,
        ∀ k' ∈ contenders c.parcel.algorithm c.header keys, ∀ text text',
          c.parcel.OpenedBy k text → c.parcel.OpenedBy k' text' → k = k')
    (hstray : ∀ c, ReadsSealed ⟨o, .ok Algorithm.builtin, keys⟩ p c →
      NoStray ⟨o, .ok Algorithm.builtin, keys⟩ c e) :
    let answer := fun keys e =>
      (decode ⟨o, .ok Algorithm.builtin, keys⟩ token e).1.mapError TokenError.kind
    (∀ keys', keys.Perm keys' →
      (∀ c, ReadsSealed ⟨o, .ok Algorithm.builtin, keys⟩ p c →
        NoStray ⟨o, .ok Algorithm.builtin, keys'⟩ c e') →
      answer keys e = answer keys' e') ∧
    (∀ keys' kept removed added, keys.Perm (kept ++ removed) → keys'.Perm (kept ++ added) →
      (∀ c, ReadsSealed ⟨o, .ok Algorithm.builtin, keys⟩ p c →
        NoStray ⟨o, .ok Algorithm.builtin, keys'⟩ c e' ∧
        (∀ k ∈ contenders c.parcel.algorithm c.header (removed ++ added), ∀ text,
          ¬ c.parcel.OpenedBy k text) ∧
        (∃ k ∈ contenders c.parcel.algorithm c.header keys,
          c.parcel.algorithm.isLegalSize k.profile.bits = true) ∧
        ∃ k ∈ contenders c.parcel.algorithm c.header keys',
          c.parcel.algorithm.isLegalSize k.profile.bits = true) →
      answer keys e = answer keys' e') ∧
    ∀ c, ReadsSealed ⟨o, .ok Algorithm.builtin, keys⟩ p c →
      ∀ k ∈ contenders c.parcel.algorithm c.header keys,
        ∀ k' ∈ contenders c.parcel.algorithm c.header keys, ∀ w w',
          KeyWrapper.bind c.parcel.limits k c.parcel.algorithm = .ok w →
          KeyWrapper.bind c.parcel.limits k' c.parcel.algorithm = .ok w' →
          ∀ cause, cause.kind = .format →
            (w.unwrap c.parcel.encryptedKey c.parcel.parameters c.parcel.enc e).1 = .error cause →
            (w'.unwrap c.parcel.encryptedKey c.parcel.parameters c.parcel.enc e').1 =
              .error cause := by
  intro answer
  refine ⟨fun keys' hperm hstray' => ?_,
    fun keys' kept removed added hkeys hkeys' hmore => ?_, ?_⟩
  · refine decode_flat hsplit hflat fun c hc => ?_
    obtain ⟨method, hp⟩ := hc.standard
    exact settleSealed_perm hp hperm (hone c hc) (hstray c hc) (hstray' c hc)
  · refine decode_flat hsplit hflat fun c hc => ?_
    obtain ⟨method, hp⟩ := hc.standard
    obtain ⟨hmem, hfamily⟩ := Known.mem_builtin hc.knownAlg
    obtain ⟨hstray', hclosed, hlegal, hlegal'⟩ := hmore c hc
    exact settleSealed_exchange hp (Algorithm.keyType_of_keyManagement hmem hfamily) hkeys hkeys'
      (hone c hc) hclosed hlegal hlegal' (hstray c hc) hstray'
  · intro c hc k hk k' hk' w w' hbind hbind' cause hcause hunwrap
    obtain ⟨method, hp⟩ := hc.standard
    exact unwrap_malformed hp hk hk' hbind hbind' hcause hunwrap

/-! ### A key that draws a content key -/

/-- The plain issuer, except that it leaves alone what is inside a token. -/
def flatIssuer : Issuer :=
  { plainIssuer with options := { plainIssuer.options with unwrapNested := false } }

/-- A stream that gives one byte for ever. -/
def constantStream (b : UInt8) : Entropy := ⟨fun _ => b, 0⟩

theorem take_constantStream (b : UInt8) (i n : Nat) :
    ((constantStream b).advance i).take n = List.replicate n b := by
  simp [Entropy.take, Entropy.advance, constantStream, List.map_const']

def transportKey : SecretKey := .make (some "r") (.pair (.rsa .mersenneKey)) {}

/-- A private RSA key of the same id that is wider, so that nothing decrypts under it that is
encrypted for the other one. -/
def strangerKey : SecretKey := .make (some "r") (.pair (.rsa .widerKey)) {}

def chainedCipher : Algorithm := .cipher "A128CBC-HS256" (.cbcHmac 256 .sha256)

def transportCredentials : EncryptingCredentials :=
  ⟨"RSA-OAEP-256", "A128CBC-HS256", none, .key transportKey, {}⟩

def transportWrapper : KeyWrapper :=
  ⟨transportKey, .rsaOaep, .rsaOaep .sha256, flatIssuer.options.passwordLimits, {}⟩

def transportHeader : Header :=
  Issuer.finishHeader flatIssuer.options
    (Issuer.sealedMembers transportWrapper chainedCipher none none .none) Header.empty

/-- A text sealed with zeros for a key and for an IV. -/
def transportContent (text : Bytes) : Sealed :=
  let ciphertext := Cbc.encrypt (.ofKey (Bytes.zeros 16)) (Bytes.zeros 16) text
  ⟨ciphertext, Bytes.zeros 16, Sealer.chainedTag .sha256 16 (Bytes.zeros 32)
    (Bytes.ofText transportHeader.toSegment) (Bytes.zeros 16) ciphertext⟩

def transportMaking (text encryptedKey : Bytes) : SealedMaking :=
  ⟨transportWrapper, chainedCipher, none, ⟨Bytes.zeros 32, encryptedKey, .none⟩, transportHeader,
    transportContent text⟩

theorem wrapper_transport : flatIssuer.wrapper transportCredentials = .ok transportWrapper := by
  have hbind : KeyWrapper.bind flatIssuer.options.passwordLimits transportKey .rsaOaep =
      .ok transportWrapper :=
    KeyWrapper.bind_rsaOaep (by rw [RsaKey.width_mersenneKey]; rfl) _ _
  have hresolve : transportCredentials.source.bind flatIssuer.rings
      (KeyWrapper.bind flatIssuer.options.passwordLimits) .keyManagement flatIssuer.known
      transportCredentials.algorithm flatIssuer.now = .ok transportWrapper := hbind
  rw [Issuer.wrapper, hresolve]
  rfl

theorem sealContent_transport (text : Bytes) (i : Nat) :
    Issuer.sealContent chainedCipher (Bytes.zeros 32) text transportHeader.toSegment
        ((constantStream 0).advance i) =
      (.ok (transportContent text), ((constantStream 0).advance i).advance 16) := by
  let sealer : Sealer := ⟨Issuer.contentKey (Bytes.zeros 32), chainedCipher, .cbcHmac 256 .sha256⟩
  have hbind : Sealer.bind (Issuer.contentKey (Bytes.zeros 32)) chainedCipher = .ok sealer := rfl
  have hiv : ((constantStream 0).advance i).take 16 = Bytes.zeros 16 := take_constantStream 0 i 16
  have hseal : sealer.sealWith (Bytes.zeros 16) text (Bytes.ofText transportHeader.toSegment) =
      .ok (transportContent text) := rfl
  rw [Issuer.sealContent, hbind, Draw.ofExcept_ok_bind, Sealer.encrypt]
  exact (Draw.bind_ok (Draw.bytes_apply 16 _)).trans (by rw [hiv, hseal]; rfl)

/-- The token is made, and its encrypted key is as wide as the key it is made for. -/
theorem exists_transport (text : Bytes) :
    ∃ encryptedKey token e', encryptedKey.length = RsaKey.mersenneKey.width ∧
      flatIssuer.encrypt text transportCredentials none Header.empty (constantStream 0) =
        (.ok token, e') ∧
      flatIssuer.Makes text transportCredentials none Header.empty
        (transportMaking text encryptedKey) ∧
      let p := (transportMaking text encryptedKey).parts
      token = joinDots [p.header, p.encryptedKey, p.iv, p.ciphertext, p.tag] := by
  let e := constantStream 0
  have hroom : (Bytes.zeros 32).length + 2 * HashId.sha256.size + 2 ≤
      RsaKey.mersenneKey.width := by
    rw [RsaKey.width_mersenneKey]
    decide
  obtain ⟨encryptedKey, hwidth, hencrypt⟩ := KeyWrapper.exists_encrypt hroom (e.advance 32)
  have hwrap : transportWrapper.wrapNew chainedCipher e =
      (.ok ⟨Bytes.zeros 32, encryptedKey, .none⟩, (e.advance 32).advance 32) :=
    KeyWrapper.wrapNew_of_wrapMaterial (by simp [transportWrapper]) rfl rfl
      (KeyWrapper.wrapMaterial_rsa rfl rfl hencrypt)
  have hseal : Issuer.sealContent chainedCipher (Bytes.zeros 32) text transportHeader.toSegment
      ((e.advance 32).advance 32) = (.ok (transportContent text), e.advance 80) :=
    sealContent_transport text 64
  obtain ⟨hmakes, hencrypted⟩ := Issuer.encrypt_of_sealContent
    (m := transportMaking text encryptedKey) wrapper_transport rfl rfl hwrap rfl hseal
  exact ⟨encryptedKey, _, e.advance 80, hwidth, hencrypted, hmakes, rfl⟩

/-- What is drawn from a stream of ones does not open what is sealed with zeros. -/
theorem contentUnder_ones {p : Parcel} (henc : p.enc = chainedCipher)
    (hcontent : p.content = transportContent (Bytes.ofText "hi"))
    (haad : p.aad = Bytes.ofText transportHeader.toSegment) :
    p.contentUnder (List.replicate 32 1) = .error .integrity := by
  rw [Parcel.contentUnder, henc, hcontent, haad]
  decide +kernel

section Transport

variable {text encryptedKey : Bytes}

/-- The wider key draws a content key, whatever it is that stands behind it. -/
theorem not_openedBy_strangerKey (hwidth : encryptedKey.length = RsaKey.mersenneKey.width)
    (found : Bytes) :
    ¬ (transportMaking text encryptedKey).reading.parcel.OpenedBy strangerKey found := by
  have hne : encryptedKey.length ≠ RsaKey.widerKey.width := by
    rw [hwidth, RsaKey.width_mersenneKey, RsaKey.width_widerKey]
    decide
  refine Parcel.not_openedBy_of_drawn (n := 32) (by decide)
    (KeyWrapper.bind_rsaOaep (by rw [RsaKey.width_widerKey]; rfl) _ _)
    (KeyWrapper.unwrap_of_unwrapRsa rfl rfl rfl
      (KeyWrapper.unwrapRsa_of_width RsaKey.isPrivate_widerKey hne 32) _)

theorem recovers_transportKey {k : KeyMaterial} (hk : transportKey.material = some k) :
    k.isPrivate = true ∧ k.Recovers := by
  obtain rfl : .pair (.rsa .mersenneKey) = k := Option.some.inj hk
  refine ⟨RsaKey.isPrivate_mersenneKey, ?_, ?_⟩
  · rintro key ⟨⟩
  · rintro key ⟨⟩
    exact RsaKey.inverts_mersenneKey

/-- None of the content keys that are drawn from a stream of ones opens what is made of "hi". -/
theorem noStray_ones (keys : List SecretKey) :
    NoStray ⟨flatIssuer.options, .ok Algorithm.builtin, keys⟩
      (transportMaking (Bytes.ofText "hi") encryptedKey).reading (constantStream 1) := by
  rintro n hn i - ⟨hash, n', found, -, hn', hfound⟩
  obtain rfl : 32 = n := Except.ok.inj hn
  obtain rfl : 32 = n' := Except.ok.inj hn'
  rw [take_constantStream, contentUnder_ones rfl rfl rfl] at hfound
  cases hfound

theorem length_transport (hwidth : encryptedKey.length = RsaKey.mersenneKey.width) :
    let p := (transportMaking (Bytes.ofText "hi") encryptedKey).parts
    (joinDots [p.header, p.encryptedKey, p.iv, p.ciphertext, p.tag]).utf8ByteSize ≤
      flatIssuer.options.maxTokenLength := by
  have hheader : (Bytes.ofText transportHeader.render).length ≤ 100 := by decide +kernel
  have hlast : ∀ segment, joinDots [segment] = segment := by simp [joinDots]
  have hdot : ".".utf8ByteSize = 1 := by decide
  have hmax : flatIssuer.options.maxTokenLength = 1024 * 1024 := rfl
  have htext : (Bytes.ofText "hi").length = 2 := by decide
  have htag : ∀ aad text, (Sealer.chainedTag .sha256 16 (Bytes.zeros 32) aad (Bytes.zeros 16)
      text).length = 16 := by
    intro aad text
    simp [Sealer.chainedTag, length_hmac, HashId.size]
  rw [RsaKey.width_mersenneKey] at hwidth
  simp only [transportMaking, SealedMaking.parts, transportContent, joinDots_cons_cons, hlast,
    String.utf8ByteSize_append, hdot, Issuer.segment, Header.toSegment,
    Base64Url.utf8ByteSize_encode, Base64Url.encodedLength, hwidth, Cbc.length_encrypt, htext,
    htag, Bytes.length_zeros, hmax]
  generalize (Bytes.ofText transportHeader.render).length = n at hheader ⊢
  omega

end Transport

/-- A stranger's key before the right one changes nothing, though a content key is drawn for it, and
neither does its place or its absence. -/
theorem decode_key_order_stranger :
    let text := Bytes.ofText "hi"
    let answer := fun token keys =>
      (decode ⟨flatIssuer.options, .ok Algorithm.builtin, keys⟩ token
        (constantStream 1)).1.mapError TokenError.kind
    ∃ token e', flatIssuer.encrypt text transportCredentials none Header.empty (constantStream 0) =
        (.ok token, e') ∧
      answer token [strangerKey, transportKey] = answer token [transportKey, strangerKey] ∧
      answer token [strangerKey, transportKey] = answer token [transportKey] ∧
      ∃ t, answer token [transportKey] = .ok t ∧ t.payload = text ∧ t.keyId = some "r" := by
  intro text answer
  obtain ⟨encryptedKey, token, e', hwidth, hencrypt, hm, htoken⟩ := exists_transport text
  let m := transportMaking text encryptedKey
  have hsplit : splitDots token =
      [m.parts.header, m.parts.encryptedKey, m.parts.iv, m.parts.ciphertext, m.parts.tag] := by
    rw [htoken, m.splitDots_parts]
  have hlen : token.utf8ByteSize ≤ flatIssuer.options.maxTokenLength := by
    rw [htoken]
    exact length_transport hwidth
  have hreading : ∀ keys c, ReadsSealed ⟨flatIssuer.options, .ok Algorithm.builtin, keys⟩ m.parts
      c → c = m.reading := by
    intro keys c hc
    have hmade := readSealed_eq_ok.2 (hm.readsSealed (by decide) Header.isPlain_empty
      (fun _ _ => rfl) keys)
    exact Except.ok.inj ((readSealed_eq_ok.2 hc).symm.trans hmade)
  have hsuits : transportKey.Suits .rsaOaep :=
    KeyWrapper.suits_rsaOaep (by rw [RsaKey.width_mersenneKey]; rfl) _
  have hmem : ∀ keys, transportKey ∈ keys →
      transportKey ∈ contenders .rsaOaep transportHeader keys :=
    fun keys hk => mem_contenders hsuits (by simp [Algorithm.rsaOaep]) (fun _ => hk) rfl
  have hsubset : ∀ keys, ∀ k ∈ contenders .rsaOaep transportHeader keys, k ∈ keys :=
    fun keys k hk => (List.mem_filter.1 hk).1
  have honly : ∀ k ∈ contenders .rsaOaep transportHeader [strangerKey, transportKey],
      ∀ found, m.reading.parcel.OpenedBy k found → k = transportKey := by
    intro k hk found hopen
    have hk' := hsubset _ k hk
    simp only [List.mem_cons, List.not_mem_nil, or_false] at hk'
    obtain rfl | rfl := hk'
    · exact absurd hopen (not_openedBy_strangerKey hwidth found)
    · rfl
  have hone : ∀ c, ReadsSealed ⟨flatIssuer.options, .ok Algorithm.builtin,
      [strangerKey, transportKey]⟩ m.parts c →
      ∀ k ∈ contenders c.parcel.algorithm c.header [strangerKey, transportKey],
        ∀ k' ∈ contenders c.parcel.algorithm c.header [strangerKey, transportKey],
          ∀ found found', c.parcel.OpenedBy k found → c.parcel.OpenedBy k' found' → k = k' := by
    intro c hc k hk k' hk' found found' hopen hopen'
    obtain rfl := hreading _ c hc
    rw [honly k hk found hopen, honly k' hk' found' hopen']
  have hstray : ∀ keys c, ReadsSealed ⟨flatIssuer.options, .ok Algorithm.builtin,
      [strangerKey, transportKey]⟩ m.parts c →
      NoStray ⟨flatIssuer.options, .ok Algorithm.builtin, keys⟩ c (constantStream 1) := by
    intro keys c hc
    obtain rfl := hreading _ c hc
    exact noStray_ones keys
  obtain ⟨hperm, hremoved, -⟩ :=
    @decode_key_order _ _ _ _ _ (constantStream 1) hsplit rfl hone (hstray _)
  refine ⟨token, e', hencrypt, ?_, ?_, ?_⟩
  · exact hperm [transportKey, strangerKey] (List.Perm.swap _ _ _) (hstray _)
  · refine hremoved [transportKey] [transportKey] [strangerKey] [] (List.Perm.swap _ _ _)
      (List.Perm.refl _) fun c hc => ?_
    obtain rfl := hreading _ c hc
    refine ⟨noStray_ones [transportKey], fun k hk found => ?_,
      ⟨transportKey, hmem _ (by simp), hsuits.2.2⟩, ⟨transportKey, hmem _ (by simp), hsuits.2.2⟩⟩
    obtain rfl : k = strangerKey := by simpa using hsubset _ k hk
    exact not_openedBy_strangerKey hwidth found
  · obtain ⟨e₁, hdecode⟩ := decode_of_makes (e := constantStream 1) hm hsplit hlen rfl
      (by decide) Header.isPlain_empty (fun _ _ => rfl) (fun hzip => by cases hzip)
      (fun k hk => recovers_transportKey hk) not_opens_nil []
    have hplain : m.header.isNested = false := isNested_of_makes hm fun _ _ => rfl
    rw [unnest_of_plain _ hplain, Draw.pure_apply] at hdecode
    exact ⟨_, congrArg (fun x => x.1.mapError TokenError.kind) hdecode, rfl, rfl⟩

/-! ### A token inside a token -/

def nestingMaking (text : Bytes) (e : Entropy) : SealedMaking :=
  sharedMaking (some "JWT") Header.empty text e

theorem makes_nesting (text : Bytes) (e : Entropy) :
    flatIssuer.Makes text sharedCredentials (some "JWT") Header.empty (nestingMaking text e) where
  wrapper := rfl
  enc := rfl
  zip := rfl
  wraps := ⟨e, e, rfl⟩
  header := rfl
  seals := ⟨e, e.advance 12, sealContent_shared nestingHeader text e⟩

theorem isNested_nestingHeader : nestingHeader.isNested = true :=
  isNested_of_makes (makes_nesting [] (Entropy.scrambled 0)) fun _ _ => rfl

theorem splitDots_nesting (text : Bytes) (e : Entropy) :
    splitDots (sharedToken nestingHeader text e) =
      let p := (nestingMaking text e).parts
      [p.header, p.encryptedKey, p.iv, p.ciphertext, p.tag] :=
  (nestingMaking text e).splitDots_parts

theorem decode_nesting {text : Bytes} (hsize : text.length ≤ 1000) (after : List SecretKey)
    (e e' : Entropy) :
    (decode ⟨flatIssuer.options, .ok Algorithm.builtin, sharedKey :: after⟩
      (sharedToken nestingHeader text e) e').1 = .ok ⟨nestingHeader, text, some "e", none⟩ := by
  obtain ⟨e₁, hdecode⟩ := decode_of_makes (e := e') (makes_nesting text e)
    (splitDots_nesting text e) (length_nested hsize e) rfl (by decide) Header.isPlain_empty
    (fun _ _ => rfl) (fun hzip => by cases hzip) (fun k hk => recovers_shared wrapper_shared hk)
    not_opens_nil after
  exact congrArg Prod.fst hdecode

end Recipient

end TokenSeal
