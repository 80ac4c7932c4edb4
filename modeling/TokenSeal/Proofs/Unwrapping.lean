import TokenSeal.Proofs.LastSegment
import TokenSeal.Proofs.WrapRoundTrip

/-! How unwrapping can end. It finds a content key of the right length, or it fails: for the form of
the parameters, which is the same for all keys, for want of a private key, or for a forgery. -/

namespace TokenSeal

/-! ### Ephemeral keys -/

/-- A member that is there and can be decoded. -/
def Legible (member : Option String) : Prop :=
  ∃ text bytes, member = some text ∧ Base64Url.decode text = .ok bytes

/-- An ephemeral key that cannot be read as a pair of coordinates on a known curve. Whether they are
those of a point is another question. -/
inductive Jwk.Malformed (epk : Jwk) : Prop
  | keyType (h : epk.kty ≠ "EC")
  | curve (h : epk.crv.bind CurveId.ofName? = none)
  | abscissa (h : ¬ Legible epk.x)
  | ordinate (h : ¬ Legible epk.y)

namespace KeyWrapper

theorem ephemeralCoordinate_cases (name : String) (member : Option String) :
    (Legible member ∧ ∃ bytes, ephemeralCoordinate name member = .ok bytes) ∨
      (¬ Legible member ∧
        ∃ cause, ephemeralCoordinate name member = .error cause ∧ cause.kind = .format) := by
  cases member with
  | none =>
    right
    refine ⟨?_, _, rfl, rfl⟩
    rintro ⟨text, bytes, h, -⟩
    cases h
  | some text =>
    cases h : Base64Url.decode text with
    | ok bytes => exact .inl ⟨⟨text, bytes, rfl, h⟩, bytes, h⟩
    | error cause =>
      right
      refine ⟨?_, cause, h, Base64Url.kind_of_decode h⟩
      rintro ⟨text', bytes, hsame, hdecode⟩
      cases hsame
      rw [h] at hdecode
      cases hdecode

/-- Of an ephemeral key that can be read, nothing is told but whether it is a point. -/
theorem ephemeralKey_cases (epk : Jwk) :
    (epk.Malformed ∧ ∃ cause, ephemeralKey epk = .error cause ∧ cause.kind = .format) ∨
      (¬ epk.Malformed ∧
        ((∃ k, ephemeralKey epk = .ok k) ∨ ephemeralKey epk = .error .integrity)) := by
  by_cases hkty : epk.kty = "EC"
  swap
  · exact .inl ⟨.keyType hkty, _, by simp [ephemeralKey, hkty]; rfl, rfl⟩
  cases hcrv : epk.crv.bind CurveId.ofName? with
  | none => exact .inl ⟨.curve hcrv, _, by simp [ephemeralKey, hkty, hcrv]; rfl, rfl⟩
  | some curve =>
    obtain ⟨hx, x, hxread⟩ | ⟨hx, cause, hxread, hkind⟩ := ephemeralCoordinate_cases "x" epk.x
    swap
    · exact .inl ⟨.abscissa hx, cause, by simp [ephemeralKey, hkty, hcrv, hxread], hkind⟩
    obtain ⟨hy, y, hyread⟩ | ⟨hy, cause, hyread, hkind⟩ := ephemeralCoordinate_cases "y" epk.y
    swap
    · exact .inl ⟨.ordinate hy, cause, by simp [ephemeralKey, hkty, hcrv, hxread, hyread], hkind⟩
    right
    have hread : ephemeralKey epk =
        (EcKey.ofCoordinates curve x y).mapError fun _ => .integrity := by
      simp [ephemeralKey, hkty, hcrv, hxread, hyread]
    constructor
    · intro h
      cases h with
      | keyType h => exact h hkty
      | curve h => rw [hcrv] at h; cases h
      | abscissa h => exact h hx
      | ordinate h => exact h hy
    · rw [hread]
      cases EcKey.ofCoordinates curve x y with
      | ok k => exact .inl ⟨k, rfl⟩
      | error cause => exact .inr rfl

/-! ### Parameters -/

/-- Parameters that a method takes but cannot use. Keys and what is encrypted have no part in it. -/
inductive Unusable (limits : PasswordLimits) : KeyManagement → WrapParameters → Prop
  | notGcm {bits : Nat} {parameters : WrapParameters}
      (h : ∀ iv tag, parameters ≠ .gcm iv tag) : Unusable limits (.gcmWrap bits) parameters
  | notAgreement {bits : Option Nat} {parameters : WrapParameters}
      (h : ∀ epk apu apv, parameters ≠ .agreement epk apu apv) :
      Unusable limits (.agreement bits) parameters
  | notPassword {hash : HashId} {bits : Nat} {parameters : WrapParameters}
      (h : ∀ salt count, parameters ≠ .password salt count) :
      Unusable limits (.password hash bits) parameters
  | epk {bits : Option Nat} {epk : Jwk} {apu apv : Bytes} (h : epk.Malformed) :
      Unusable limits (.agreement bits) (.agreement epk apu apv)
  | count {hash : HashId} {bits : Nat} {salt : Bytes} {count : Nat}
      (h : ¬ (1 ≤ count ∧ count ≤ limits.maxIterations)) :
      Unusable limits (.password hash bits) (.password salt count)
  | salt {hash : HashId} {bits : Nat} {salt : Bytes} {count : Nat} (h : salt.length < 8) :
      Unusable limits (.password hash bits) (.password salt count)

theorem formFault?_of_epk {limits : PasswordLimits} {bits : Option Nat} {epk : Jwk}
    {apu apv : Bytes} :
    (∃ cause, formFault? limits (.agreement bits) (.agreement epk apu apv) = some cause) ↔
      epk.Malformed := by
  obtain ⟨h, cause, hcause, hkind⟩ | ⟨h, ⟨k, hk⟩ | hforged⟩ := ephemeralKey_cases epk
  · simp [formFault?, hcause, hkind, h]
  · simp [formFault?, hk, h]
  · simp [formFault?, hforged, Fault.kind, h]

theorem formFault?_of_password {limits : PasswordLimits} {hash : HashId} {bits : Nat}
    {salt : Bytes} {count : Nat} :
    (∃ cause, formFault? limits (.password hash bits) (.password salt count) = some cause) ↔
      ¬ (1 ≤ count ∧ count ≤ limits.maxIterations) ∨ salt.length < 8 := by
  by_cases hcount : count = 0 ∨ limits.maxIterations < count
  · have hout : ¬ (1 ≤ count ∧ count ≤ limits.maxIterations) := by omega
    simp [formFault?, hcount, hout]
  · have hin : 1 ≤ count ∧ count ≤ limits.maxIterations := by omega
    by_cases hsalt : salt.length < 8 <;> simp [formFault?, hcount, hin, hsalt, minSaltLength]

theorem unusable_iff {limits : PasswordLimits} {method : KeyManagement}
    {parameters : WrapParameters} : Unusable limits method parameters ↔
      ∃ cause, formFault? limits method parameters = some cause := by
  constructor
  · intro h
    cases h with
    | notGcm h =>
      cases parameters with
      | gcm iv tag => exact absurd rfl (h iv tag)
      | _ => exact ⟨_, rfl⟩
    | notAgreement h =>
      cases parameters with
      | agreement epk apu apv => exact absurd rfl (h epk apu apv)
      | _ => exact ⟨_, rfl⟩
    | notPassword h =>
      cases parameters with
      | password salt count => exact absurd rfl (h salt count)
      | _ => exact ⟨_, rfl⟩
    | epk h => exact formFault?_of_epk.2 h
    | count h => exact formFault?_of_password.2 (.inl h)
    | salt h => exact formFault?_of_password.2 (.inr h)
  · rintro ⟨cause, h⟩
    cases method with
    | gcmWrap bits =>
      cases parameters with
      | gcm iv tag => cases h
      | _ => exact .notGcm (by simp)
    | agreement bits =>
      cases parameters with
      | agreement epk apu apv => exact .epk (formFault?_of_epk.1 ⟨cause, h⟩)
      | _ => exact .notAgreement (by simp)
    | password hash bits =>
      cases parameters with
      | password salt count =>
        obtain hcount | hsalt := formFault?_of_password.1 ⟨cause, h⟩
        · exact .count hcount
        · exact .salt hsalt
      | _ => exact .notPassword (by simp)
    | _ => cases h

/-! ### Faults -/

/-- Material of the type that a method works with. -/
def Serves : KeyManagement → KeyMaterial → Prop
  | .agreement _, m => ∃ key, ecKey m = .ok key
  | .rsaOaep _, m => ∃ key, m.effective = .pair (.rsa key)
  | _, m => ∃ key, symmetricKey m = .ok key

/-- What is told of a failure when the parameters can be used. -/
inductive Locked (m : KeyMaterial) : Fault → Prop
  | forged : Locked m .integrity
  | publicOnly {p : KeyPair} (h : m.effective = .pair p) (hpublic : p.isPrivate = false) :
      Locked m .missingPrivateKey

theorem serves_of_suits {k : SecretKey} {a : Algorithm} {method : KeyManagement} {m : KeyMaterial}
    (ha : a ∈ Algorithm.builtin) (hmethod : a.method = .keyManagement method) (hk : k.Suits a)
    (hread : k.read = .ok m) : Serves method m := by
  have hsymmetric : a.keyType = .symmetric → ∃ key, symmetricKey m = .ok key := by
    intro htype
    obtain ⟨key, rfl, -⟩ := hk.symmetric hread htype
    exact ⟨key, symmetricKey_symmetric key⟩
  have hec : a.keyType = .ecc → ∃ key, ecKey m = .ok key := by
    intro htype
    obtain ⟨-, heffective, -⟩ := hk
    exact SecretKey.ecKey_of_effective hread (heffective.trans htype)
  have hmanaged := Algorithm.managed_of_mem ((Algorithm.mem_of_family ha).2
    (by simp [Algorithm.family, hmethod, Method.family]))
  cases hmanaged with
  | agreed | agreedWrap =>
    cases hmethod
    exact hec rfl
  | rsa =>
    cases hmethod
    obtain ⟨key, hkey, -⟩ := hk.rsa hread rfl
    exact ⟨key, hkey⟩
  | _ =>
    cases hmethod
    exact hsymmetric rfl

section Faults

variable {m : KeyMaterial}

theorem failsOnly_integrity {α : Type} :
    Draw.FailsOnly (Locked m) (Draw.ofExcept (.error .integrity) : Draw Fault α) :=
  Draw.failsOnly_error .forged

theorem failsOnly_unwrapAes (kek wrapped : Bytes) :
    Draw.FailsOnly (Locked m) (Draw.ofExcept (unwrapAes kek wrapped)) := by
  unfold unwrapAes
  split
  · split
    · exact Draw.failsOnly_ok _
    · exact failsOnly_integrity
  · exact failsOnly_integrity

theorem failsOnly_agreeWith {recipient : EcKey} (h : ecKey m = .ok recipient)
    (ephemeral : EcKey) :
    Draw.FailsOnly (Locked m) (Draw.ofExcept (agreeWith recipient ephemeral)) := by
  unfold agreeWith
  cases hsecret : recipient.secret with
  | none =>
    have hpublic : (KeyPair.ec recipient).isPrivate = false := by
      simp [KeyPair.isPrivate, EcKey.isPrivate, hsecret]
    exact Draw.failsOnly_error (.publicOnly (ecKey_eq_ok.1 h) hpublic)
  | some d =>
    dsimp only
    split
    · split
      · exact Draw.failsOnly_ok _
      · exact failsOnly_integrity
    · exact failsOnly_integrity

theorem failsOnly_unwrapRsa {key : RsaKey} (h : m.effective = .pair (.rsa key)) (hash : HashId)
    (encrypted : Bytes) (n : Nat) :
    Draw.FailsOnly (Locked m) (unwrapRsa hash m encrypted n) := by
  unfold unwrapRsa
  rw [h]
  dsimp only
  cases hsecret : key.secret with
  | none =>
    have hpublic : (KeyPair.rsa key).isPrivate = false := by
      simp [KeyPair.isPrivate, RsaKey.isPrivate, hsecret]
    exact Draw.failsOnly_error (.publicOnly h hpublic)
  | some secret =>
    dsimp only
    split
    · split
      · exact Draw.failsOnly_ok _
      · exact Draw.failsOnly_bytes n
    · exact Draw.failsOnly_bytes n

theorem failsOnly_ephemeralKey {epk : Jwk} (h : ¬ epk.Malformed) :
    Draw.FailsOnly (Locked m) (Draw.ofExcept (ephemeralKey epk)) := by
  obtain ⟨hbad, -⟩ | ⟨-, ⟨k, hk⟩ | hforged⟩ := ephemeralKey_cases epk
  · exact absurd hbad h
  · rw [hk]
    exact Draw.failsOnly_ok k
  · rw [hforged]
    exact failsOnly_integrity

theorem failsOnly_unwrapAgreed {w : KeyWrapper} {wrapBits : Option Nat}
    {parameters : WrapParameters} {recipient : EcKey} (hm : ecKey m = .ok recipient)
    (husable : ¬ Unusable w.limits (.agreement wrapBits) parameters) (encrypted : Bytes)
    (enc : Algorithm) (n : Nat) :
    Draw.FailsOnly (Locked m)
      (Draw.ofExcept (w.unwrapAgreed wrapBits m encrypted parameters enc n)) := by
  cases parameters with
  | agreement epk apu apv =>
    have hepk : ¬ epk.Malformed := fun hbad => husable (.epk hbad)
    rw [unwrapAgreed, hm, ok_bind]
    refine (failsOnly_ephemeralKey hepk).ofExcept_bind fun ephemeral _ => ?_
    refine (failsOnly_agreeWith hm ephemeral).ofExcept_bind fun z _ => ?_
    cases wrapBits with
    | none =>
      dsimp only
      split
      · exact failsOnly_integrity
      · exact Draw.failsOnly_ok _
    | some bits => exact failsOnly_unwrapAes _ encrypted
  | _ => exact absurd (.notAgreement (by simp)) husable

theorem failsOnly_unwrapWithPassword {w : KeyWrapper} {hash : HashId} {wrapBits : Nat}
    {parameters : WrapParameters} {key : Bytes} (hm : symmetricKey m = .ok key)
    (husable : ¬ Unusable w.limits (.password hash wrapBits) parameters) (encrypted : Bytes) :
    Draw.FailsOnly (Locked m)
      (Draw.ofExcept (w.unwrapWithPassword hash wrapBits m encrypted parameters)) := by
  cases parameters with
  | password salt count =>
    have hcount : ¬ (count = 0 ∨ w.limits.maxIterations < count) := by
      intro hout
      exact husable (.count (by omega))
    have hsalt : ¬ salt.length < minSaltLength := fun hshort => husable (.salt hshort)
    simp only [unwrapWithPassword, hcount, hsalt, if_false, hm]
    exact failsOnly_unwrapAes _ encrypted
  | _ => exact absurd (.notPassword (by simp)) husable

theorem failsOnly_unwrapMaterial {w : KeyWrapper} {parameters : WrapParameters}
    (hm : Serves w.method m) (husable : ¬ Unusable w.limits w.method parameters)
    (encrypted : Bytes) (enc : Algorithm) (n : Nat) :
    Draw.FailsOnly (Locked m) (w.unwrapMaterial m encrypted parameters enc n) := by
  unfold unwrapMaterial
  cases hmethod : w.method with
  | direct =>
    rw [hmethod] at hm
    obtain ⟨key, hkey⟩ := hm
    dsimp only
    rw [hkey]
    split
    · exact failsOnly_integrity
    · exact Draw.failsOnly_ok key
  | aesWrap bits =>
    rw [hmethod] at hm
    obtain ⟨key, hkey⟩ := hm
    dsimp only
    rw [hkey]
    exact failsOnly_unwrapAes key encrypted
  | gcmWrap bits =>
    rw [hmethod] at hm husable
    obtain ⟨key, hkey⟩ := hm
    cases parameters with
    | gcm iv tag =>
      dsimp only
      rw [hkey, ok_bind]
      split
      · exact Draw.failsOnly_ok _
      · exact failsOnly_integrity
    | _ => exact absurd (.notGcm (by simp)) husable
  | agreement wrapBits =>
    rw [hmethod] at hm husable
    obtain ⟨recipient, hrecipient⟩ := hm
    exact failsOnly_unwrapAgreed hrecipient husable encrypted enc n
  | password hash bits =>
    rw [hmethod] at hm husable
    obtain ⟨key, hkey⟩ := hm
    exact failsOnly_unwrapWithPassword hkey husable encrypted
  | rsaOaep hash =>
    rw [hmethod] at hm
    obtain ⟨key, hkey⟩ := hm
    exact failsOnly_unwrapRsa hkey hash encrypted n

end Faults

/-! ### Outcomes -/

section Outcomes

variable {w : KeyWrapper} {m : KeyMaterial} {enc : Algorithm} {n : Nat}
  {parameters : WrapParameters}

theorem unwrap_eq (henc : contentKeyLength enc = .ok n) (hread : w.key.read = .ok m)
    (encrypted : Bytes) (e : Entropy) :
    w.unwrap encrypted parameters enc e =
      (w.unwrapMaterial m encrypted parameters enc n >>= fun key =>
        if key.length ≠ n then throw .integrity else pure key) e := by
  rw [unwrap, henc, Draw.ofExcept_ok_bind, hread, Draw.ofExcept_ok_bind]
  rfl

theorem length_of_unwrap (henc : contentKeyLength enc = .ok n) (hread : w.key.read = .ok m)
    {encrypted key : Bytes} {e e' : Entropy}
    (h : w.unwrap encrypted parameters enc e = (.ok key, e')) : key.length = n := by
  rw [unwrap_eq henc hread] at h
  obtain ⟨key', e₁, -, h⟩ := Draw.bind_eq_ok.1 h
  split at h
  · cases h
  · next hlength =>
    cases h
    exact Decidable.not_not.1 hlength

theorem locked_of_unwrap (henc : contentKeyLength enc = .ok n) (hread : w.key.read = .ok m)
    (hm : Serves w.method m) (husable : ¬ Unusable w.limits w.method parameters)
    (encrypted : Bytes) : Draw.FailsOnly (Locked m) (w.unwrap encrypted parameters enc) := by
  intro e cause e' h
  rw [unwrap_eq henc hread] at h
  refine (failsOnly_unwrapMaterial hm husable encrypted enc n).bind (fun key => ?_) e cause e' h
  split
  · exact failsOnly_integrity
  · exact Draw.failsOnly_ok key

theorem unwrap_of_unusable (henc : contentKeyLength enc = .ok n) (hread : w.key.read = .ok m)
    (hm : Serves w.method m) (h : Unusable w.limits w.method parameters) (encrypted : Bytes)
    (e : Entropy) : ∃ cause, cause.kind = .format ∧
      w.unwrap encrypted parameters enc e = (.error cause, e) := by
  obtain ⟨cause, hcause⟩ := unusable_iff.1 h
  refine ⟨cause, kind_of_formFault hcause, unwrap_of_formFault henc hread ?_ hcause encrypted e⟩
  intro bits hmethod
  rw [hmethod] at hm
  exact hm

/-- With the private key there is always some content key, the right one or a random one. -/
theorem unwrap_of_rsa {hash : HashId} {key : RsaKey} (henc : contentKeyLength enc = .ok n)
    (hread : w.key.read = .ok m) (hmethod : w.method = .rsaOaep hash)
    (hkey : m.effective = .pair (.rsa key)) (hprivate : key.isPrivate = true) (encrypted : Bytes)
    (e : Entropy) : ∃ contentKey e', contentKey.length = n ∧
      w.unwrap encrypted parameters enc e = (.ok contentKey, e') := by
  have hfound : ∃ contentKey e', contentKey.length = n ∧
      w.unwrapMaterial m encrypted parameters enc n e = (.ok contentKey, e') := by
    obtain ⟨secret, hsecret⟩ := Option.isSome_iff_exists.1 hprivate
    simp only [unwrapMaterial, hmethod, unwrapRsa, hkey, hsecret]
    have hdrawn : ∃ contentKey e', contentKey.length = n ∧
        (Draw.bytes n : Draw Fault Bytes) e = (.ok contentKey, e') :=
      ⟨e.take n, e.advance n, by simp [Entropy.take], rfl⟩
    cases Rsa.decrypt? key secret hash encrypted with
    | none => exact hdrawn
    | some contentKey =>
      by_cases hlength : contentKey.length = n
      · exact ⟨contentKey, e, hlength, by simp [hlength]⟩
      · simpa [hlength] using hdrawn
  obtain ⟨contentKey, e', hlength, hmaterial⟩ := hfound
  refine ⟨contentKey, e', hlength, ?_⟩
  rw [unwrap_eq henc hread, Draw.bind_ok hmaterial, if_neg (not_not.2 hlength)]
  rfl

/-- Whatever comes in, unwrapping ends in a content key of the right length or in one of three faults.
It is a fault of form exactly if the parameters are of no use to the method, whatever the key and what
is encrypted. For want of a private key it fails only if there is none, and otherwise it tells of a
forgery. With a private RSA key it does not fail at all. -/
theorem unwrap_fails_closed {limits : PasswordLimits} {k : SecretKey} {a enc : Algorithm}
    {w : KeyWrapper} {cipher : ContentCipher} (ha : a ∈ Algorithm.builtin)
    (hw : KeyWrapper.bind limits k a = .ok w) (henc : enc.method = .contentEncryption cipher)
    (party : PartyInfo) (encrypted : Bytes) (parameters : WrapParameters) (e : Entropy) :
    ∃ m result e', k.read = .ok m ∧
      (w.withParty party).unwrap encrypted parameters enc e = (result, e') ∧
      (∀ contentKey, result = .ok contentKey → contentKey.length = cipher.keyLength) ∧
      ((∃ cause, result = .error cause ∧ cause.kind = .format) ↔
        Unusable limits w.method parameters) ∧
      (∀ cause, result = .error cause → cause.kind = .format ∨ cause = .integrity ∨
        cause = .missingPrivateKey ∧ ∃ p, m.effective = .pair p ∧ p.isPrivate = false) ∧
      ∀ hash key, w.method = .rsaOaep hash → m.effective = .pair (.rsa key) →
        key.isPrivate = true →
          ∃ contentKey, result = .ok contentKey ∧ contentKey.length = cipher.keyLength := by
  obtain ⟨method, hmethod, hk, rfl⟩ := KeyWrapper.bind_eq_ok.1 hw
  obtain ⟨m, -, hread⟩ := SecretKey.read_of_live hk.1
  have hm := serves_of_suits ha hmethod hk hread
  have hlength : contentKeyLength enc = .ok cipher.keyLength := by simp [contentKeyLength, henc]
  let w : KeyWrapper := ⟨k, a, method, limits, party⟩
  have hreadw : w.key.read = .ok m := hread
  have hmw : Serves w.method m := hm
  refine ⟨m, _, _, hread, rfl, ?_, ⟨?_, ?_⟩, ?_, ?_⟩
  · intro contentKey hkey
    exact length_of_unwrap hlength hreadw (Prod.ext hkey rfl)
  · rintro ⟨cause, hcause, hkind⟩
    by_contra husable
    have hlocked := locked_of_unwrap hlength hreadw hmw husable encrypted e cause _
      (Prod.ext hcause rfl)
    cases hlocked <;> cases hkind
  · intro husable
    obtain ⟨cause, hkind, hunwrap⟩ := unwrap_of_unusable hlength hreadw hmw husable encrypted e
    exact ⟨cause, congrArg Prod.fst hunwrap, hkind⟩
  · intro cause hcause
    by_cases husable : Unusable w.limits w.method parameters
    · obtain ⟨cause', hkind, hunwrap⟩ := unwrap_of_unusable hlength hreadw hmw husable encrypted e
      have hsame := hcause.symm.trans (congrArg Prod.fst hunwrap)
      cases hsame
      exact .inl hkind
    · have hlocked := locked_of_unwrap hlength hreadw hmw husable encrypted e cause _
        (Prod.ext hcause rfl)
      cases hlocked with
      | forged => exact .inr (.inl rfl)
      | publicOnly h hpublic => exact .inr (.inr ⟨rfl, _, h, hpublic⟩)
  · intro hash key hrsa hkey hprivate
    obtain ⟨contentKey, e', hsize, hunwrap⟩ :=
      unwrap_of_rsa hlength hreadw hrsa hkey hprivate encrypted e
    exact ⟨contentKey, congrArg Prod.fst hunwrap, hsize⟩

/-- A password of zeros: no iterations are a fault of form, and with one iteration there is no other
fault but that the key was forged. -/
theorem unwrap_fails_closed_zeros :
    let a : Algorithm := .password "PBES2-HS256+A128KW" .sha256 128
    let enc : Algorithm := .cipher "A128GCM" (.gcm 128)
    let k : SecretKey := .make none (.symmetric (Bytes.zeros 16)) {}
    let e := Entropy.scrambled 0
    ∃ w, KeyWrapper.bind (.make 1 1) k a = .ok w ∧
      (∃ cause e', (w.withParty {}).unwrap [] (.password (Bytes.zeros 8) 0) enc e =
        (.error cause, e') ∧ cause.kind = .format) ∧
      ∀ cause e', (w.withParty {}).unwrap [] (.password (Bytes.zeros 8) 1) enc e =
        (.error cause, e') → cause = .integrity := by
  intro a enc k e
  have ha : a ∈ Algorithm.builtin := by decide
  have hk : k.Suits a := ⟨rfl, rfl, by decide⟩
  have hw : KeyWrapper.bind (.make 1 1) k a = .ok ⟨k, a, .password .sha256 128, .make 1 1, {}⟩ :=
    KeyWrapper.bind_eq_ok.2 ⟨_, rfl, hk, rfl⟩
  have henc : enc.method = .contentEncryption (.gcm 128) := rfl
  refine ⟨_, hw, ?_, ?_⟩
  · obtain ⟨m, result, e', -, hunwrap, -, hform, -⟩ :=
      unwrap_fails_closed ha hw henc {} [] (.password (Bytes.zeros 8) 0) e
    obtain ⟨cause, rfl, hkind⟩ := hform.2 (.count (by simp))
    exact ⟨cause, e', hunwrap, hkind⟩
  · intro cause e' h
    obtain ⟨m, result, e₁, hm, hunwrap, -, hform, hfault, -⟩ :=
      unwrap_fails_closed ha hw henc {} [] (.password (Bytes.zeros 8) 1) e
    cases hm
    rw [h] at hunwrap
    cases hunwrap
    obtain hkind | hforged | ⟨-, p, hp, -⟩ := hfault cause rfl
    · have hunusable := hform.1 ⟨cause, rfl, hkind⟩
      cases hunusable with
      | notPassword h => exact absurd rfl (h _ _)
      | count h => exact absurd ⟨le_rfl, le_rfl⟩ h
      | salt h => exact absurd h (by decide)
    · exact hforged
    · cases hp

end Outcomes

end KeyWrapper

end TokenSeal
