import TokenSeal.Proofs.LastSegment
import TokenSeal.Proofs.SealedRoundTrip

/-! The search for the key of an encrypted token: what becomes of it at one key, and how it ends.
The keys it goes through are live and of the right type, so that only their sizes, the form of the
parameters and the cipher texts are left to decide. -/

namespace TokenSeal

/-! ### Keys of the right type -/

theorem SecretKey.ecKey_of_effective {k : SecretKey} {m : KeyMaterial} (hread : k.read = .ok m)
    (h : k.profile.effective = .ecc) : ∃ key, KeyWrapper.ecKey m = .ok key := by
  rw [k.profile_eq m (SecretKey.read_eq_ok.1 hread)] at h
  have heff : m.effective.keyType = .ecc := h
  cases hm : m.effective with
  | pair p =>
    cases p with
    | ec key => exact ⟨key, KeyWrapper.ecKey_eq_ok.2 hm⟩
    | rsa key => simp [hm, KeyMaterial.keyType, KeyPair.keyType] at heff
  | certificate der p => cases m <;> simp [KeyMaterial.effective] at hm
  | _ => simp [hm, KeyMaterial.keyType] at heff

theorem Algorithm.keyType_of_agreement {a : Algorithm} {bits : Option Nat} (h : a ∈ builtin)
    (hm : a.method = .keyManagement (.agreement bits)) : a.keyType = .ecc := by
  have hfamily : a.family = .keyManagement := by simp [family, hm, Method.family]
  have hall : ∀ a ∈ keyManagement, ∀ bits, a.method = .keyManagement (.agreement bits) →
      a.keyType = .ecc := by
    simp [keyManagement, direct, wrapping, agreement, password]
  exact hall a ((mem_of_family h).2 hfamily) bits hm

namespace KeyWrapper

theorem bind_of_live {limits : PasswordLimits} {k : SecretKey} {a : Algorithm}
    {method : KeyManagement} (hm : a.method = .keyManagement method) (hk : k.isDisposed = false)
    (ht : k.profile.effective = a.keyType) :
    bind limits k a =
      if a.isLegalSize k.profile.bits then .ok ⟨k, a, method, limits, {}⟩
      else .error (.invalidKeySize a.code k.profile.bits) := by
  have hf : a.family = .keyManagement := by simp [Algorithm.family, hm, Method.family]
  by_cases hs : a.isLegalSize k.profile.bits = true <;>
    simp [bind, checkBinding_of_live hf hk ht, hm, hs]

theorem still_or_drawn_unwrapRsa (hash : HashId) (m : KeyMaterial) (encrypted : Bytes) (n : Nat) :
    (unwrapRsa hash m encrypted n).Still ∨ unwrapRsa hash m encrypted n = Draw.bytes n := by
  unfold unwrapRsa
  split
  · split
    · exact .inl (Draw.still_throw _)
    · split
      · next key _ =>
        split
        · exact .inl (Draw.still_ofExcept (.ok key))
        · exact .inr rfl
      · exact .inr rfl
  · exact .inl (Draw.still_throw _)

/-- What is not as wide as an RSA key does not decrypt under it. -/
theorem unwrapRsa_of_width {hash : HashId} {key : RsaKey} {encrypted : Bytes}
    (hprivate : key.isPrivate = true) (hwidth : encrypted.length ≠ key.width) (n : Nat) :
    unwrapRsa hash (.pair (.rsa key)) encrypted n = Draw.bytes n := by
  obtain ⟨s, hs⟩ := Option.isSome_iff_exists.1 hprivate
  have hnone : Rsa.decrypt? key s hash encrypted = none := by
    rw [Rsa.decrypt?, if_pos (.inl hwidth)]
  simp [unwrapRsa, KeyMaterial.effective, hs, hnone]

theorem unwrap_of_unwrapRsa {w : KeyWrapper} {hash : HashId} {m : KeyMaterial} {enc : Algorithm}
    {n : Nat} {encrypted : Bytes} (hmethod : w.method = .rsaOaep hash) (hread : w.key.read = .ok m)
    (henc : contentKeyLength enc = .ok n) (hdrawn : unwrapRsa hash m encrypted n = Draw.bytes n)
    (parameters : WrapParameters) (e : Entropy) :
    w.unwrap encrypted parameters enc e = (.ok (e.take n), e.advance n) := by
  have hmaterial : w.unwrapMaterial m encrypted parameters enc n = Draw.bytes n := by
    simp only [unwrapMaterial, hmethod, hdrawn]
  rw [unwrap, henc, Draw.ofExcept_ok_bind, hread, Draw.ofExcept_ok_bind, hmaterial,
    Draw.bind_ok (Draw.bytes_apply n e)]
  simp [Entropy.take]

/-- The only randomness in unwrapping is the content key that stands in for one that RSA does not
decrypt. -/
theorem still_or_drawn {w : KeyWrapper} {enc : Algorithm} {n : Nat}
    (henc : contentKeyLength enc = .ok n) (encrypted : Bytes) (parameters : WrapParameters) :
    (w.unwrap encrypted parameters enc).Still ∨
      (∃ hash, w.method = .rsaOaep hash) ∧
        ∀ e, w.unwrap encrypted parameters enc e = (.ok (e.take n), e.advance n) := by
  by_cases hw : ∀ hash, w.method ≠ .rsaOaep hash
  · exact .inl (still_unwrap hw encrypted parameters enc)
  push Not at hw
  obtain ⟨hash, hmethod⟩ := hw
  cases hread : w.key.read with
  | error cause =>
    refine .inl ⟨.error cause, funext fun e => ?_⟩
    rw [unwrap, henc, Draw.ofExcept_ok_bind, hread, Draw.ofExcept_error_bind]
    rfl
  | ok m =>
    have hunwrap : ∀ e, w.unwrap encrypted parameters enc e =
        (unwrapRsa hash m encrypted n >>= fun key =>
          if key.length ≠ n then throw .integrity else pure key) e := by
      intro e
      simp only [unwrap, henc, Draw.ofExcept_ok_bind, hread, unwrapMaterial, hmethod]
      rfl
    obtain hstill | hdrawn := still_or_drawn_unwrapRsa hash m encrypted n
    · left
      rw [funext hunwrap]
      refine hstill.bind fun key => ?_
      split
      · exact Draw.still_throw _
      · exact Draw.still_ofExcept (.ok key)
    · exact .inr ⟨⟨hash, hmethod⟩, unwrap_of_unwrapRsa hmethod hread henc hdrawn parameters⟩

end KeyWrapper

namespace Recipient

/-! ### One key -/

namespace Parcel

/-- A parcel under algorithms that go together as the standard ones do. -/
structure Standard (p : Parcel) (method : KeyManagement) : Prop where
  managed : p.algorithm.method = .keyManagement method
  keyType : ∀ bits, method = .agreement bits → p.algorithm.keyType = .ecc
  length : ∃ n, 0 < n ∧ KeyWrapper.contentKeyLength p.enc = .ok n

def isLegal (p : Parcel) (k : SecretKey) : Bool := p.algorithm.isLegalSize k.profile.bits

/-- The fault in the form of the parameters, if there is one. -/
def formFault? (p : Parcel) : Option Fault :=
  match p.algorithm.method with
  | .keyManagement method => KeyWrapper.formFault? p.limits method p.parameters
  | _ => none

/-- A key leads to a content key that opens the content, however random bytes fall. -/
def OpenedBy (p : Parcel) (k : SecretKey) (text : Bytes) : Prop :=
  ∃ w contentKey, KeyWrapper.bind p.limits k p.algorithm = .ok w ∧
    (∀ e, w.unwrap p.encryptedKey p.parameters p.enc e = (.ok contentKey, e)) ∧
      p.contentUnder contentKey = .ok text

/-- The content key that is drawn in place of one that RSA does not decrypt opens the content. -/
def Strays (p : Parcel) (e : Entropy) : Prop :=
  ∃ hash n text, p.algorithm.method = .keyManagement (.rsaOaep hash) ∧
    KeyWrapper.contentKeyLength p.enc = .ok n ∧ p.contentUnder (e.take n) = .ok text

/-- Of the content keys that can be drawn for so many keys, one after another, none opens the
content. -/
def NoStray (p : Parcel) (e : Entropy) (count : Nat) : Prop :=
  ∀ n, KeyWrapper.contentKeyLength p.enc = .ok n → ∀ i < count, ¬ p.Strays (e.advance (i * n))

/-- What becomes of the stream at a key that does not open a parcel: at most one content key is
drawn. -/
def Moves (p : Parcel) (e e' : Entropy) : Prop :=
  e' = e ∨ ∃ n, KeyWrapper.contentKeyLength p.enc = .ok n ∧ e' = e.advance n

theorem NoStray.not_strays {p : Parcel} {e : Entropy} {count : Nat} (h : p.NoStray e (count + 1)) :
    ¬ p.Strays e := by
  rintro ⟨hash, n, text, hmethod, hn, htext⟩
  refine h n hn 0 (Nat.succ_pos count) ⟨hash, n, text, hmethod, hn, ?_⟩
  simpa [Entropy.advance] using htext

theorem NoStray.moves {p : Parcel} {e e' : Entropy} {count : Nat} (h : p.NoStray e (count + 1))
    (hmoves : p.Moves e e') : p.NoStray e' count := by
  intro n hn i hi
  obtain rfl | ⟨n', hn', rfl⟩ := hmoves
  · exact h n hn i (by omega)
  · obtain rfl : n = n' := Except.ok.inj (hn.symm.trans hn')
    have hnext : (e.advance n).advance (i * n) = e.advance ((i + 1) * n) := by
      simp only [Entropy.advance, Nat.succ_mul]
      congr 1
      omega
    rw [hnext]
    exact h n hn (i + 1) (by omega)

section Step

variable {p : Parcel} {method : KeyManagement} {k : SecretKey}

theorem Standard.bind (hp : p.Standard method)
    (hk : k.isDisposed = false ∧ k.profile.effective = p.algorithm.keyType) :
    KeyWrapper.bind p.limits k p.algorithm =
      if p.isLegal k then .ok ⟨k, p.algorithm, method, p.limits, {}⟩
      else .error (.invalidKeySize p.algorithm.code k.profile.bits) :=
  KeyWrapper.bind_of_live hp.managed hk.1 hk.2

theorem Standard.formFault?_eq (hp : p.Standard method) :
    p.formFault? = KeyWrapper.formFault? p.limits method p.parameters := by
  simp [formFault?, hp.managed]

theorem kind_of_formFault {cause : Fault} (h : p.formFault? = some cause) :
    cause.kind = .format := by
  unfold formFault? at h
  split at h
  · exact KeyWrapper.kind_of_formFault h
  · cases h

theorem Standard.unwrap_of_formFault (hp : p.Standard method)
    (hk : k.isDisposed = false ∧ k.profile.effective = p.algorithm.keyType) {cause : Fault}
    (h : p.formFault? = some cause) (e : Entropy) :
    KeyWrapper.unwrap ⟨k, p.algorithm, method, p.limits, {}⟩ p.encryptedKey p.parameters p.enc e =
      (.error cause, e) := by
  obtain ⟨n, -, hn⟩ := hp.length
  obtain ⟨m, -, hread⟩ := SecretKey.read_of_live hk.1
  rw [hp.formFault?_eq] at h
  refine KeyWrapper.unwrap_of_formFault hn hread (fun bits hbits => ?_) h p.encryptedKey e
  exact SecretKey.ecKey_of_effective hread (hk.2.trans (hp.keyType bits hbits))

theorem Standard.formFault?_of_openedBy (hp : p.Standard method) {text : Bytes}
    (hk : k.isDisposed = false ∧ k.profile.effective = p.algorithm.keyType)
    (h : p.OpenedBy k text) : p.formFault? = none := by
  obtain ⟨w, contentKey, hbind, hunwrap, -⟩ := h
  cases hform : p.formFault? with
  | none => rfl
  | some cause =>
    have hfault := hp.unwrap_of_formFault hk hform (Entropy.scrambled 0)
    rw [hp.bind hk] at hbind
    split at hbind
    · cases hbind
      rw [hunwrap] at hfault
      cases hfault
    · cases hbind

theorem Standard.isLegal_of_openedBy (hp : p.Standard method) {text : Bytes}
    (hk : k.isDisposed = false ∧ k.profile.effective = p.algorithm.keyType)
    (h : p.OpenedBy k text) : p.isLegal k = true := by
  obtain ⟨w, contentKey, hbind, -⟩ := h
  rw [hp.bind hk] at hbind
  by_contra hlegal
  rw [if_neg hlegal] at hbind
  cases hbind

theorem OpenedBy.unique {text text' : Bytes} (h : p.OpenedBy k text) (h' : p.OpenedBy k text') :
    text = text' := by
  obtain ⟨w, contentKey, hbind, hunwrap, htext⟩ := h
  obtain ⟨w', contentKey', hbind', hunwrap', htext'⟩ := h'
  obtain rfl : w = w' := Except.ok.inj (hbind.symm.trans hbind')
  have hsame := (hunwrap (Entropy.scrambled 0)).symm.trans (hunwrap' (Entropy.scrambled 0))
  obtain rfl : contentKey = contentKey' := Except.ok.inj (congrArg Prod.fst hsame)
  exact Except.ok.inj (htext.symm.trans htext')

theorem opening_of_still {w : KeyWrapper} {x : Except Fault Bytes}
    (hbind : KeyWrapper.bind p.limits k p.algorithm = .ok w)
    (hx : w.unwrap p.encryptedKey p.parameters p.enc = Draw.ofExcept x)
    (hform : ∀ cause, x = .error cause → cause.kind ≠ .format) (bindingFault : Option Fault)
    (attempted : Bool) (rest : List SecretKey) (e : Entropy) :
    (∃ text, p.OpenedBy k text ∧
      opening p bindingFault attempted (k :: rest) e = (.ok (k, text), e)) ∨
    (∀ text, ¬ p.OpenedBy k text) ∧
      opening p bindingFault attempted (k :: rest) e = opening p bindingFault true rest e := by
  have hunwrap : ∀ e, w.unwrap p.encryptedKey p.parameters p.enc e = (x, e) := by
    intro e
    rw [hx, Draw.ofExcept_apply]
  have hkey : ∀ text, p.OpenedBy k text →
      ∃ contentKey, x = .ok contentKey ∧ p.contentUnder contentKey = .ok text := by
    rintro text ⟨w', contentKey, hbind', hunwrap', htext⟩
    obtain rfl : w = w' := Except.ok.inj (hbind.symm.trans hbind')
    exact ⟨contentKey, congrArg Prod.fst ((hunwrap e).symm.trans (hunwrap' e)), htext⟩
  cases x with
  | error cause =>
    right
    refine ⟨fun text htext => ?_, opening_locked hbind (hunwrap e) (hform cause rfl)⟩
    obtain ⟨contentKey, hcontent, -⟩ := hkey text htext
    cases hcontent
  | ok contentKey =>
    cases hcontent : p.contentUnder contentKey with
    | error cause =>
      right
      refine ⟨fun text htext => ?_, opening_forged hbind (hunwrap e) hcontent⟩
      obtain ⟨contentKey', hsame, hopen⟩ := hkey text htext
      cases hsame
      rw [hcontent] at hopen
      cases hopen
    | ok text =>
      left
      exact ⟨text, ⟨w, contentKey, hbind, hunwrap, hcontent⟩,
        opening_found hbind (hunwrap e) hcontent⟩

/-- A key that opens a parcel draws nothing. -/
theorem not_openedBy_of_drawn {w : KeyWrapper} {n : Nat} {text : Bytes} (hpos : 0 < n)
    (hbind : KeyWrapper.bind p.limits k p.algorithm = .ok w)
    (hdrawn : ∀ e, w.unwrap p.encryptedKey p.parameters p.enc e = (.ok (e.take n), e.advance n)) :
    ¬ p.OpenedBy k text := by
  rintro ⟨w', contentKey, hbind', hunwrap, -⟩
  obtain rfl : w = w' := Except.ok.inj (hbind.symm.trans hbind')
  let e := Entropy.scrambled 0
  have hplace := congrArg (·.2.position) ((hdrawn e).symm.trans (hunwrap e))
  simp [Entropy.advance] at hplace
  omega

theorem opening_of_drawn {w : KeyWrapper} {hash : HashId} {n : Nat}
    (hmethod : p.algorithm.method = .keyManagement (.rsaOaep hash)) (hpos : 0 < n)
    (hn : KeyWrapper.contentKeyLength p.enc = .ok n)
    (hbind : KeyWrapper.bind p.limits k p.algorithm = .ok w)
    (hdrawn : ∀ e, w.unwrap p.encryptedKey p.parameters p.enc e = (.ok (e.take n), e.advance n))
    (bindingFault : Option Fault) (attempted : Bool) (rest : List SecretKey) (e : Entropy) :
    (∀ text, ¬ p.OpenedBy k text) ∧
      ((p.Strays e ∧ ∃ text e', opening p bindingFault attempted (k :: rest) e =
          (.ok (k, text), e')) ∨
        opening p bindingFault attempted (k :: rest) e =
          opening p bindingFault true rest (e.advance n)) := by
  refine ⟨fun _ => not_openedBy_of_drawn hpos hbind hdrawn, ?_⟩
  cases hcontent : p.contentUnder (e.take n) with
  | error cause => exact .inr (opening_forged hbind (hdrawn e) hcontent)
  | ok text =>
    exact .inl ⟨⟨hash, n, text, hmethod, hn, hcontent⟩, text, _,
      opening_found hbind (hdrawn e) hcontent⟩

/-- All that can become of the search at a key: it is of an illegal size, the parameters have the
wrong form, it opens the parcel, or it does not. In the last case a stray content key may still
open the parcel; otherwise the search goes on. -/
theorem Standard.opening_cons (hp : p.Standard method)
    (hk : k.isDisposed = false ∧ k.profile.effective = p.algorithm.keyType)
    (bindingFault : Option Fault) (attempted : Bool) (rest : List SecretKey) (e : Entropy) :
    (p.isLegal k = false ∧ opening p bindingFault attempted (k :: rest) e =
      opening p (some (.invalidKeySize p.algorithm.code k.profile.bits)) attempted rest e) ∨
    (p.isLegal k = true ∧ ∃ cause, p.formFault? = some cause ∧
      opening p bindingFault attempted (k :: rest) e = (.error (.fault cause), e)) ∨
    (∃ text, p.OpenedBy k text ∧
      opening p bindingFault attempted (k :: rest) e = (.ok (k, text), e)) ∨
    (p.isLegal k = true ∧ p.formFault? = none ∧ (∀ text, ¬ p.OpenedBy k text) ∧
      ((p.Strays e ∧ ∃ text e', opening p bindingFault attempted (k :: rest) e =
          (.ok (k, text), e')) ∨
        ∃ e', p.Moves e e' ∧ opening p bindingFault attempted (k :: rest) e =
          opening p bindingFault true rest e')) := by
  have hbind := hp.bind hk
  by_cases hlegal : p.isLegal k = true
  · rw [if_pos hlegal] at hbind
    right
    cases hform : p.formFault? with
    | some cause =>
      have hunwrap := hp.unwrap_of_formFault hk hform e
      exact .inl ⟨hlegal, cause, rfl, opening_malformed hbind hunwrap (kind_of_formFault hform)⟩
    | none =>
      right
      obtain ⟨n, hpos, hn⟩ := hp.length
      obtain ⟨x, hx⟩ | ⟨⟨hash, hrsa⟩, hdrawn⟩ := KeyWrapper.still_or_drawn
        (w := ⟨k, p.algorithm, method, p.limits, {}⟩) hn p.encryptedKey p.parameters
      · have hcause : ∀ cause, x = .error cause → cause.kind ≠ .format := by
          rw [hp.formFault?_eq] at hform
          rintro cause rfl
          exact KeyWrapper.formFree_unwrap hform p.encryptedKey p.enc e cause e (congrFun hx e)
        obtain hopen | ⟨hclosed, hnext⟩ :=
          opening_of_still hbind hx hcause bindingFault attempted rest e
        · exact .inl hopen
        · exact .inr ⟨hlegal, rfl, hclosed, .inr ⟨e, .inl rfl, hnext⟩⟩
      · obtain rfl : method = .rsaOaep hash := hrsa
        obtain ⟨hclosed, hstray | hnext⟩ :=
          opening_of_drawn hp.managed hpos hn hbind hdrawn bindingFault attempted rest e
        · exact .inr ⟨hlegal, rfl, hclosed, .inl hstray⟩
        · exact .inr ⟨hlegal, rfl, hclosed, .inr ⟨_, .inr ⟨n, hn, rfl⟩, hnext⟩⟩
  · rw [if_neg hlegal] at hbind
    exact .inl ⟨by simpa using hlegal, congrFun (opening_unbound hbind) e⟩

end Step

/-! ### All keys -/

/-- The fault of the last key of an illegal size. -/
def lastMisfit (p : Parcel) (bindingFault : Option Fault) (keys : List SecretKey) : Option Fault :=
  keys.foldl (fun last k =>
    if p.isLegal k then last else some (.invalidKeySize p.algorithm.code k.profile.bits))
    bindingFault

/-- How the search ends when no key opens a parcel. Of the parcel only the algorithm and the form of
the parameters have a part in it. -/
def rejection (p : Parcel) (bindingFault : Option Fault) (attempted : Bool)
    (keys : List SecretKey) : TokenError :=
  match p.formFault?, keys.any p.isLegal with
  | some cause, true => .fault cause
  | _, legal => verdict (p.lastMisfit bindingFault keys) (attempted || legal)

theorem lastMisfit_of_illegal {p : Parcel} {keys : List SecretKey} (hne : keys ≠ [])
    (h : keys.any p.isLegal = false) (bindingFault : Option Fault) :
    ∃ bits, p.lastMisfit bindingFault keys = some (.invalidKeySize p.algorithm.code bits) := by
  induction keys generalizing bindingFault with
  | nil => exact absurd rfl hne
  | cons k rest ih =>
    rw [List.any_cons, Bool.or_eq_false_iff] at h
    have hstep : p.lastMisfit bindingFault (k :: rest) =
        p.lastMisfit (some (.invalidKeySize p.algorithm.code k.profile.bits)) rest := by
      simp [lastMisfit, h.1]
    rw [hstep]
    cases rest with
    | nil => exact ⟨_, rfl⟩
    | cons k' rest => exact ih (by simp) h.2 _

section Search

variable {p : Parcel} {method : KeyManagement} {keys : List SecretKey}

/-- A search that finds nothing ends in the same way wherever the cipher texts went wrong. -/
theorem Standard.opening_of_none (hp : p.Standard method)
    (hkeys : ∀ k ∈ keys, k.isDisposed = false ∧ k.profile.effective = p.algorithm.keyType)
    {bindingFault : Option Fault} {attempted : Bool} {e : Entropy}
    (hnone : ∀ found, (opening p bindingFault attempted keys e).1 ≠ .ok found) :
    (opening p bindingFault attempted keys e).1 =
      .error (p.rejection bindingFault attempted keys) := by
  induction keys generalizing bindingFault attempted e with
  | nil =>
    rw [opening_nil]
    cases hform : p.formFault? <;> simp [rejection, lastMisfit, hform]
  | cons k rest ih =>
    have hrest : ∀ k ∈ rest, k.isDisposed = false ∧ k.profile.effective = p.algorithm.keyType :=
      fun k hk => hkeys k (List.mem_cons_of_mem _ hk)
    obtain ⟨hlegal, h⟩ | ⟨hlegal, cause, hform, h⟩ | ⟨text, -, h⟩ | ⟨hlegal, hform, -, h⟩ :=
      hp.opening_cons (hkeys k (by simp)) bindingFault attempted rest e
    · rw [h] at hnone ⊢
      rw [ih hrest hnone]
      cases p.formFault? <;> simp [rejection, lastMisfit, hlegal]
    · rw [h]
      simp [rejection, hform, hlegal]
    · rw [h] at hnone
      exact absurd rfl (hnone (k, text))
    · obtain ⟨-, text, e', h⟩ | ⟨e', -, h⟩ := h
      · rw [h] at hnone
        exact absurd rfl (hnone (k, text))
      · rw [h] at hnone ⊢
        rw [ih hrest hnone]
        simp [rejection, lastMisfit, hform, hlegal]

theorem Standard.openedBy_of_opening (hp : p.Standard method)
    (hkeys : ∀ k ∈ keys, k.isDisposed = false ∧ k.profile.effective = p.algorithm.keyType)
    {bindingFault : Option Fault} {attempted : Bool} {e : Entropy} {found : SecretKey × Bytes}
    (hstray : p.NoStray e keys.length)
    (h : (opening p bindingFault attempted keys e).1 = .ok found) :
    found.1 ∈ keys ∧ p.OpenedBy found.1 found.2 := by
  induction keys generalizing bindingFault attempted e with
  | nil => cases h
  | cons k rest ih =>
    have hrest : ∀ k ∈ rest, k.isDisposed = false ∧ k.profile.effective = p.algorithm.keyType :=
      fun k hk => hkeys k (List.mem_cons_of_mem _ hk)
    obtain ⟨-, hstep⟩ | ⟨-, cause, -, hstep⟩ | ⟨text, hopen, hstep⟩ | ⟨-, -, -, hstep⟩ :=
      hp.opening_cons (hkeys k (by simp)) bindingFault attempted rest e
    · rw [hstep] at h
      obtain ⟨hmem, hopen⟩ := ih hrest (hstray.moves (.inl rfl)) h
      exact ⟨List.mem_cons_of_mem _ hmem, hopen⟩
    · rw [hstep] at h
      cases h
    · rw [hstep] at h
      cases h
      exact ⟨List.mem_cons_self, hopen⟩
    · obtain ⟨hstrays, -⟩ | ⟨e', hmoves, hstep⟩ := hstep
      · exact absurd hstrays hstray.not_strays
      · rw [hstep] at h
        obtain ⟨hmem, hopen⟩ := ih hrest (hstray.moves hmoves) h
        exact ⟨List.mem_cons_of_mem _ hmem, hopen⟩

/-- No key that does not open a parcel keeps the search from one that does. -/
theorem Standard.opening_of_openedBy (hp : p.Standard method)
    (hkeys : ∀ k ∈ keys, k.isDisposed = false ∧ k.profile.effective = p.algorithm.keyType)
    {k : SecretKey} {text : Bytes} (hmem : k ∈ keys) (hopen : p.OpenedBy k text)
    (bindingFault : Option Fault) (attempted : Bool) (e : Entropy) :
    ∃ found, (opening p bindingFault attempted keys e).1 = .ok found := by
  have hform := hp.formFault?_of_openedBy (hkeys k hmem) hopen
  induction keys generalizing bindingFault attempted e with
  | nil => cases hmem
  | cons k' rest ih =>
    have hlive := hkeys k' (by simp)
    have hlater : k ≠ k' → ∀ bindingFault attempted e,
        ∃ found, (opening p bindingFault attempted rest e).1 = .ok found := by
      intro hne
      exact ih (fun k hk => hkeys k (List.mem_cons_of_mem _ hk))
        ((List.mem_cons.1 hmem).resolve_left hne)
    obtain ⟨hlegal, h⟩ | ⟨-, cause, hfault, -⟩ | ⟨text', -, h⟩ | ⟨-, -, hclosed, h⟩ :=
      hp.opening_cons hlive bindingFault attempted rest e
    · rw [h]
      refine hlater ?_ _ _ _
      rintro rfl
      rw [hp.isLegal_of_openedBy hlive hopen] at hlegal
      cases hlegal
    · rw [hform] at hfault
      cases hfault
    · exact ⟨_, congrArg Prod.fst h⟩
    · obtain ⟨-, text', e', h⟩ | ⟨e', -, h⟩ := h
      · exact ⟨_, congrArg Prod.fst h⟩
      · rw [h]
        refine hlater ?_ _ _ _
        rintro rfl
        exact hclosed text hopen

end Search

end Parcel

/-! ### Readings -/

theorem ReadsSealed.standard {o : Options} {keys : List SecretKey} {p : SealedParts}
    {c : SealedReading} (h : ReadsSealed ⟨o, .ok Algorithm.builtin, keys⟩ p c) :
    ∃ method, c.parcel.Standard method := by
  obtain ⟨method, hmethod, -⟩ := h.parameters
  obtain ⟨hmem, -⟩ := Known.mem_builtin h.knownAlg
  obtain ⟨hencMem, hencFamily⟩ := Known.mem_builtin h.knownEnc
  obtain ⟨cipher, hcipher, -, hleast⟩ := Algorithm.method_of_contentEncryption hencMem hencFamily
  refine ⟨method, hmethod, fun bits hbits => ?_, cipher.keyLength, by omega, ?_⟩
  · rw [hbits] at hmethod
    exact Algorithm.keyType_of_agreement hmem hmethod
  · simp [KeyWrapper.contentKeyLength, hcipher]

end Recipient

/-- How a token is refused when no key opens it. -/
def SealedReading.rejection (c : SealedReading) (keys : List SecretKey) : TokenError :=
  if keys.isEmpty then .fault (.noMatchingKey c.alg) else c.parcel.rejection none false keys

theorem SealedReading.kind_rejection (c : SealedReading) (keys : List SecretKey) :
    (c.rejection keys).kind =
      if c.parcel.formFault?.isSome ∧ keys.any c.parcel.isLegal then .format
      else Recipient.refusal c.parcel.algorithm keys := by
  cases keys with
  | nil => simp [rejection, Recipient.refusal, TokenError.kind, Fault.kind]
  | cons k rest =>
    have hrefusal : Recipient.refusal c.parcel.algorithm (k :: rest) =
        if (k :: rest).any c.parcel.isLegal then .integrity else .invalidKeySize := rfl
    rw [hrefusal, rejection, if_neg (by simp), Recipient.Parcel.rejection]
    cases hlegal : (k :: rest).any c.parcel.isLegal with
    | true =>
      cases hform : c.parcel.formFault? with
      | none => simp [verdict, TokenError.kind]
      | some cause =>
        simpa [TokenError.kind] using Recipient.Parcel.kind_of_formFault hform
    | false =>
      obtain ⟨bits, hbits⟩ := Recipient.Parcel.lastMisfit_of_illegal (by simp) hlegal none
      cases c.parcel.formFault? <;> simp [hbits, verdict, TokenError.kind, Fault.kind]

namespace Recipient

theorem settleSealed_of_none {r : Recipient} {c : SealedReading} {method : KeyManagement}
    (hp : c.parcel.Standard method) {e : Entropy}
    (hnone : ∀ found, (opening c.parcel none false
      (contenders c.parcel.algorithm c.header r.keys) e).1 ≠ .ok found) :
    (r.settleSealed c e).1 =
      .error (c.rejection (contenders c.parcel.algorithm c.header r.keys)) := by
  have hopening := hp.opening_of_none contenders_live hnone
  rw [settleSealed, keysFor_eq]
  by_cases hempty : (contenders c.parcel.algorithm c.header r.keys).isEmpty = true
  · rw [if_pos hempty, Draw.ofExcept_error_bind, SealedReading.rejection, if_pos hempty]
  · rw [if_neg hempty, Draw.ofExcept_ok_bind, Draw.bind_error (Prod.ext hopening rfl),
      SealedReading.rejection, if_neg hempty]

end Recipient

end TokenSeal
