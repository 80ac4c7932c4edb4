import TokenSeal.Proofs.Disposal
import TokenSeal.Proofs.Unsealing

/-! What opening leaves in the buffer that it is given. A buffer that was used for one key is as good
as new for the next one. -/

namespace TokenSeal

namespace Sealer

variable {s : Sealer} {key : Bytes} {c : Sealed} {aad written : Bytes} {room n : Nat}

/-! ### The room -/

theorem openFor_of_lt (s : Sealer) (aad : Bytes) (h : room < c.ciphertext.length) :
    ∃ cause, s.openFor c aad room = .untouched cause := by
  unfold openFor
  split
  · exact ⟨_, rfl⟩
  · split
    · split
      · exact ⟨_, rfl⟩
      · exact ⟨_, rfl⟩
    · exact ⟨_, rfl⟩

/-- Of the room it matters only that there is enough. -/
theorem openFor_of_le (h : c.ciphertext.length ≤ room) :
    s.openFor c aad room = s.openFor c aad c.ciphertext.length := by
  have hroom : ¬ room < c.ciphertext.length := Nat.not_lt.2 h
  simp only [openFor, hroom, Nat.lt_irrefl, if_false]

theorem openGcm_eq_opened (h : openGcm key c aad = .opened written n) :
    written.length = c.ciphertext.length ∧ n = written.length := by
  unfold openGcm at h
  split at h
  · next text htext =>
    cases h
    exact ⟨(KeyWrapper.length_sealGcm (openGcm?_eq_some.1 htext).2).symm, rfl⟩
  · cases h

theorem openChained_eq_opened {hash : HashId} (hiv : c.iv.length = 16)
    (h : openChained hash key c aad = .opened written n) :
    written.length = c.ciphertext.length ∧ n ≤ written.length := by
  unfold openChained at h
  split at h
  · cases h
  · next hgood =>
    have hdvd : 16 ∣ c.ciphertext.length := by
      simp only [not_or, ne_eq, Decidable.not_not] at hgood
      exact Nat.dvd_of_mod_eq_zero hgood.2.2
    split at h
    · dsimp only at h
      split at h
      · next text htext =>
        cases h
        have hlength := Cbc.length_decryptPadded (.ofKey (textKey key)) hiv hdvd
        have hpad := Cbc.pad_of_unpad? (hlength ▸ hdvd) htext
        refine ⟨hlength, ?_⟩
        rw [← hpad, Cbc.pad, List.length_append]
        exact Nat.le_add_right _ _
      · cases h
    · cases h

/-- What is written has the length of the ciphertext, and the content is in it. -/
theorem openFor_eq_opened (h : s.openFor c aad room = .opened written n) :
    written.length = c.ciphertext.length ∧ n ≤ written.length := by
  unfold openFor at h
  split at h
  · cases h
  · split at h
    · split at h
      · cases h
      · next hlengths =>
        simp only [not_or, ne_eq, Decidable.not_not] at hlengths
        obtain ⟨hiv, -⟩ := hlengths
        split at h
        · cases h
        · split at h
          · obtain ⟨hlength, rfl⟩ := openGcm_eq_opened h
            exact ⟨hlength, Nat.le_refl _⟩
          · next hc =>
            rw [hc] at hiv
            exact openChained_eq_opened hiv h
    · cases h

theorem le_of_openFor {o : Opening} (hopen : s.openFor c aad room = o)
    (h : ∀ cause, o ≠ .untouched cause) : c.ciphertext.length ≤ room := by
  by_contra hlt
  obtain ⟨cause, hcause⟩ := openFor_of_lt s aad (Nat.not_le.1 hlt)
  exact h cause (hopen.symm.trans hcause)

/-! ### The buffer afterwards -/

/-- Opens a ciphertext into a buffer: the content, and the buffer afterwards. -/
def openInto (s : Sealer) (c : Sealed) (aad buffer : Bytes) : Except Fault Bytes × Bytes :=
  let (result, after) := s.decryptInto c aad buffer
  (result.map after.take, after)

/-- Opens a ciphertext with one sealer after the other, all of them in one buffer. -/
def openEach (c : Sealed) (aad : Bytes) : List Sealer → Bytes → List (Except Fault Bytes)
  | [], _ => []
  | s :: rest, buffer =>
    let (text, after) := s.openInto c aad buffer
    text :: openEach c aad rest after

section Buffer

variable (s : Sealer) (c : Sealed) (aad buffer : Bytes)

theorem decryptInto_frame : (s.decryptInto c aad buffer).2.length = buffer.length ∧
    (s.decryptInto c aad buffer).2.drop c.ciphertext.length =
      buffer.drop c.ciphertext.length := by
  unfold decryptInto
  cases hopen : s.openFor c aad buffer.length with
  | untouched cause => exact ⟨rfl, rfl⟩
  | wiped =>
    have hroom : c.ciphertext.length ≤ buffer.length := le_of_openFor hopen (by simp)
    have hzeros := Bytes.length_zeros c.ciphertext.length
    constructor
    · rw [List.length_append, hzeros, List.length_drop]
      omega
    · exact List.drop_left' hzeros
  | opened written n =>
    have hroom : c.ciphertext.length ≤ buffer.length := le_of_openFor hopen (by simp)
    obtain ⟨hlength, -⟩ := openFor_eq_opened hopen
    constructor
    · rw [List.length_append, List.length_drop]
      omega
    · dsimp only
      rw [hlength]
      exact List.drop_left' hlength

/-- Nothing of what was in a buffer shows in what is opened into it, not even in the fault. -/
theorem openInto_congr {buffer buffer' : Bytes}
    (h : s.openFor c aad buffer.length = s.openFor c aad buffer'.length) :
    (s.openInto c aad buffer).1 = (s.openInto c aad buffer').1 := by
  simp only [openInto, decryptInto, h]
  cases hopen : s.openFor c aad buffer'.length with
  | untouched cause => rfl
  | wiped => rfl
  | opened written n =>
    obtain ⟨-, hle⟩ := openFor_eq_opened hopen
    simp only [map_ok, List.take_append_of_le_length hle]

theorem openInto_eq_decrypt {buffer : Bytes} (h : c.ciphertext.length ≤ buffer.length) :
    (s.openInto c aad buffer).1 = s.decrypt c aad := by
  have hfresh : (Bytes.zeros c.ciphertext.length).length = c.ciphertext.length :=
    Bytes.length_zeros _
  have hsame : s.openFor c aad buffer.length =
      s.openFor c aad (Bytes.zeros c.ciphertext.length).length := by
    rw [openFor_of_le h, hfresh]
  exact openInto_congr s c aad hsame

end Buffer

/-- A buffer that was used for other keys before is as good as a fresh one. -/
theorem openEach_eq (c : Sealed) (aad : Bytes) (sealers : List Sealer) {buffer fresh : Bytes}
    (h : fresh.length = buffer.length) :
    openEach c aad sealers buffer = sealers.map fun s => (s.openInto c aad fresh).1 := by
  -- The buffer changes from key to key, but its length does not, and nothing else counts.
  induction sealers generalizing buffer with
  | nil => rfl
  | cons s rest ih =>
    have hafter : fresh.length = (s.openInto c aad buffer).2.length := by
      obtain ⟨hlength, -⟩ := decryptInto_frame s c aad buffer
      rw [h]
      exact hlength.symm
    have hhead : (s.openInto c aad buffer).1 = (s.openInto c aad fresh).1 :=
      openInto_congr s c aad (by rw [h])
    rw [List.map_cons, ← hhead, ← ih hafter]
    rfl

end Sealer

/-! ### The search for the key -/

namespace Recipient

/-- The text under a content key, by way of a buffer. -/
def Parcel.contentInto (p : Parcel) (contentKey buffer : Bytes) : Except Fault Bytes × Bytes :=
  match Sealer.bind (Issuer.contentKey contentKey) p.enc with
  | .error cause => (.error cause, buffer)
  | .ok s => s.openInto p.content p.aad buffer

/-- The search for the key with one buffer for all keys. -/
def openingInto (p : Parcel) :
    Bytes → Option Fault → Bool → List SecretKey → Draw TokenError (SecretKey × Bytes)
  | _, bindingFault, attempted, [] => throw (verdict bindingFault attempted)
  | buffer, bindingFault, attempted, k :: rest =>
    match KeyWrapper.bind p.limits k p.algorithm with
    | .error e => openingInto p buffer (some e) attempted rest
    | .ok w => fun entropy =>
      match w.unwrap p.encryptedKey p.parameters p.enc entropy with
      | (.error e, entropy) =>
        if e.kind = .format then (.error (.fault e), entropy)
        else openingInto p buffer bindingFault true rest entropy
      | (.ok contentKey, entropy) =>
        match p.contentInto contentKey buffer with
        | (.ok text, _) => (.ok (k, text), entropy)
        | (.error _, after) => openingInto p after bindingFault true rest entropy

theorem Parcel.length_contentInto (p : Parcel) (contentKey buffer : Bytes) :
    (p.contentInto contentKey buffer).2.length = buffer.length := by
  unfold contentInto
  split
  · rfl
  · next s _ => exact (s.decryptInto_frame p.content p.aad buffer).1

theorem Parcel.contentInto_eq_contentUnder (p : Parcel) (contentKey : Bytes) {buffer : Bytes}
    (h : p.content.ciphertext.length ≤ buffer.length) :
    (p.contentInto contentKey buffer).1 = p.contentUnder contentKey := by
  unfold contentInto contentUnder
  cases hs : Sealer.bind (Issuer.contentKey contentKey) p.enc with
  | error cause => rfl
  | ok s => exact s.openInto_eq_decrypt p.content p.aad h

theorem openingInto_eq_opening (p : Parcel) (keys : List SecretKey) {buffer : Bytes}
    (h : p.content.ciphertext.length ≤ buffer.length) (bindingFault : Option Fault)
    (attempted : Bool) :
    openingInto p buffer bindingFault attempted keys =
      opening p bindingFault attempted keys := by
  induction keys generalizing buffer bindingFault attempted with
  | nil => rfl
  | cons k rest ih =>
    funext entropy
    cases hbind : KeyWrapper.bind p.limits k p.algorithm with
    | error cause =>
      rw [opening_unbound hbind, openingInto, hbind]
      exact congrFun (ih h _ _) entropy
    | ok w =>
      simp only [openingInto, opening, hbind]
      cases hunwrap : w.unwrap p.encryptedKey p.parameters p.enc entropy with
      | mk result entropy' =>
        cases result with
        | error cause => simp only [ih h]
        | ok contentKey =>
          have htext := p.contentInto_eq_contentUnder contentKey h
          have hlength := p.length_contentInto contentKey buffer
          cases hinto : p.contentInto contentKey buffer with
          | mk text after =>
            rw [hinto] at htext hlength
            dsimp only at htext hlength
            simp only [← htext, hinto]
            cases text with
            | ok text => rfl
            | error cause => exact congrFun (ih (hlength ▸ h) _ _) entropy'

end Recipient

/-! ### Sealers over the built-in ciphers -/

namespace Sealer

/-- A sealer over a built-in cipher, as it was bound or after its key was disposed of. -/
inductive Made : Sealer → Prop
  | live {a : Algorithm} {k : SecretKey} {s : Sealer} (ha : a ∈ Algorithm.builtin)
      (hs : Sealer.bind k a = .ok s) : Made s
  | spent {a : Algorithm} {k : SecretKey} {s : Sealer} (ha : a ∈ Algorithm.builtin)
      (hs : Sealer.bind k a = .ok s) : Made { s with key := s.key.dispose }

/-- What opening comes to, and the buffer afterwards. Only a text that was authenticated is ever left
in it. -/
inductive Leaves (s : Sealer) (c : Sealed) (aad buffer : Bytes) : Except Fault Nat × Bytes → Prop
  | kept {cause : Fault} (h : s.Refuses c aad buffer.length cause) :
      Leaves s c aad buffer (.error cause, buffer)
  | wiped {after : Bytes} (hfree : ∀ cause, ¬ s.Refuses c aad buffer.length cause)
      (h : s.Wipes c aad)
      (hzeros : after.take c.ciphertext.length = Bytes.zeros c.ciphertext.length) :
      Leaves s c aad buffer (.error .integrity, after)
  | opened {text after : Bytes} (hfree : ∀ cause, ¬ s.Refuses c aad buffer.length cause)
      (h : s.decrypt c aad = .ok text) (hle : text.length ≤ c.ciphertext.length)
      (hfront : text <+: after) : Leaves s c aad buffer (.ok text.length, after)

section Made

variable {s : Sealer} {c : Sealed} {aad buffer : Bytes}

theorem Made.hasKey_or_disposed (hs : s.Made) :
    (∃ key, s.HasKey key) ∨ s.key.isDisposed = true := by
  cases hs with
  | live ha hs =>
    obtain ⟨cipher, hmethod, hk, rfl⟩ := Sealer.bind_eq_ok.1 hs
    have hfamily := congrArg Method.family hmethod
    obtain ⟨cipher', key, hmethod', hkey⟩ := exists_hasKey ha hfamily hk
    obtain rfl : cipher = cipher' := by simpa [hmethod] using hmethod'
    exact .inl ⟨key, hkey⟩
  | spent ha hs => exact .inr rfl

theorem HasKey.leaves {key : Bytes} (hs : s.HasKey key) :
    s.Leaves c aad buffer (s.decryptInto c aad buffer) := by
  obtain ⟨cause, hcause, hopen⟩ | ⟨hfree, hopened⟩ := hs.openFor_cases c aad buffer.length
  · simp only [decryptInto, hopen]
    exact .kept hcause
  obtain ⟨hwipes, hopen⟩ | ⟨text, written, hseal, hfront, hopen⟩ := hopened
  · simp only [decryptInto, hopen]
    exact .wiped hfree hwipes (List.take_left' (Bytes.length_zeros _))
  · obtain ⟨hlength, hle⟩ := openFor_eq_opened hopen
    simp only [decryptInto, hopen]
    exact .opened hfree (hs.decrypt_eq_ok.2 hseal) (hlength ▸ hle)
      (hfront.trans (List.prefix_append _ _))

theorem Made.leaves (hs : s.Made) : s.Leaves c aad buffer (s.decryptInto c aad buffer) := by
  obtain ⟨key, hkey⟩ | hgone := hs.hasKey_or_disposed
  · exact hkey.leaves
  · obtain ⟨-, -, -, hinto⟩ := spent_of_isDisposed hgone
    rw [hinto]
    exact .kept (.disposed hgone)

theorem Leaves.of_refuses {outcome : Except Fault Nat × Bytes} {cause : Fault}
    (h : s.Leaves c aad buffer outcome) (hcause : s.Refuses c aad buffer.length cause) :
    ∃ fault, s.Refuses c aad buffer.length fault ∧ outcome = (.error fault, buffer) := by
  cases h with
  | kept h => exact ⟨_, h, rfl⟩
  | wiped hfree => exact absurd hcause (hfree cause)
  | opened hfree => exact absurd hcause (hfree cause)

theorem Leaves.content {outcome : Except Fault Nat × Bytes} {n : Nat}
    (h : s.Leaves c aad buffer outcome) (hn : outcome.1 = .ok n) :
    n ≤ c.ciphertext.length ∧ s.decrypt c aad = .ok (outcome.2.take n) := by
  cases h with
  | kept => cases hn
  | wiped => cases hn
  | opened hfree htext hle hfront =>
    cases hn
    obtain ⟨rest, rfl⟩ := hfront
    rw [List.take_left]
    exact ⟨hle, htext⟩

theorem Leaves.short {outcome : Except Fault Nat × Bytes} {fault : Fault}
    (h : s.Leaves c aad buffer outcome) (hfault : outcome.1 = .error fault)
    (hkind : fault.kind = .format) : buffer.length < c.ciphertext.length := by
  cases h with
  | kept h =>
    cases hfault
    cases h with
    | room hshort => exact hshort
    | _ => cases hkind
  | wiped =>
    cases hfault
    cases hkind
  | opened => cases hfault

end Made

/-- Opening leaves nothing in a buffer that was not authenticated. Beyond the ciphertext's room the
buffer stays as it is. In that room the text is written if the ciphertext opens, as much of it as is
told and nothing of what was there before; otherwise the room stays as it is too, or it is filled with
zeros. A fault of form tells that the buffer is too short. So one buffer does for any number of keys,
and for the search for the key of a token. -/
theorem leaves_of_decryptInto :
    (∀ (s : Sealer) (c : Sealed) (aad buffer : Bytes), s.Made →
      s.Leaves c aad buffer (s.decryptInto c aad buffer) ∧
      (s.decryptInto c aad buffer).2.length = buffer.length ∧
      (s.decryptInto c aad buffer).2.drop c.ciphertext.length =
        buffer.drop c.ciphertext.length ∧
      (∀ n, (s.decryptInto c aad buffer).1 = .ok n → n ≤ c.ciphertext.length ∧
        s.decrypt c aad = .ok ((s.decryptInto c aad buffer).2.take n)) ∧
      ∀ fault, (s.decryptInto c aad buffer).1 = .error fault → fault.kind = .format →
        buffer.length < c.ciphertext.length) ∧
    (∀ (c : Sealed) (aad buffer fresh : Bytes) (sealers : List Sealer),
      fresh.length = buffer.length →
        openEach c aad sealers buffer = sealers.map fun s => (s.openInto c aad fresh).1) ∧
    (∀ (c : Sealed) (aad buffer : Bytes) (sealers : List Sealer),
      c.ciphertext.length ≤ buffer.length →
        openEach c aad sealers buffer = sealers.map (·.decrypt c aad)) ∧
    ∀ (p : Recipient.Parcel) (keys : List SecretKey) (buffer : Bytes),
      p.content.ciphertext.length ≤ buffer.length →
        Recipient.openingInto p buffer none false keys = Recipient.opening p none false keys := by
  refine ⟨fun s c aad buffer hs => ?_, fun c aad buffer fresh sealers h => ?_,
    fun c aad buffer sealers h => ?_, fun p keys buffer h => ?_⟩
  · have hleaves : s.Leaves c aad buffer (s.decryptInto c aad buffer) := hs.leaves
    obtain ⟨hlength, hdrop⟩ := decryptInto_frame s c aad buffer
    exact ⟨hleaves, hlength, hdrop, fun n => hleaves.content, fun fault => hleaves.short⟩
  · exact openEach_eq c aad sealers h
  · rw [openEach_eq c aad sealers rfl]
    exact List.map_congr_left fun s _ => openInto_eq_decrypt s c aad h
  · exact Recipient.openingInto_eq_opening p keys h none false

/-- In a buffer of sixteen bytes a greeting is opened after a disposed key was tried there, and a tag of
no bytes leaves the buffer alone. -/
theorem leaves_of_decryptInto_zeros :
    let a : Algorithm := .cipher "A128CBC-HS256" (.cbcHmac 256 .sha256)
    let buffer : Bytes := List.replicate 16 255
    ∃ s c, Sealer.bind (Recipient.zeroKey "a") a = .ok s ∧
      s.sealWith (Bytes.zeros 16) (Bytes.ofText "hi") [] = .ok c ∧
      openEach c [] [{ s with key := s.key.dispose }, s] buffer =
        [.error (.disposed .secretKey), .ok (Bytes.ofText "hi")] ∧
      s.decryptInto { c with tag := [] } [] buffer = (.error .integrity, buffer) := by
  intro a buffer
  have ha : a ∈ Algorithm.builtin := by decide
  have hk : (Recipient.zeroKey "a").Suits a := ⟨rfl, rfl, by decide⟩
  obtain ⟨cipher, key, hmethod, hkey⟩ := exists_hasKey ha rfl hk
  cases hmethod
  have hs := Sealer.bind_eq_ok.2 ⟨_, rfl, hk, rfl⟩
  have hiv : (Bytes.zeros 16).length = ContentCipher.ivLength (.cbcHmac 256 .sha256) := rfl
  obtain ⟨c, hseal, -, hlength, -, hopen⟩ := hkey.sealWith_opens hiv (Bytes.ofText "hi") []
  obtain ⟨hleaves, -, heach, -⟩ := leaves_of_decryptInto
  refine ⟨_, c, hs, hseal, ?_, ?_⟩
  · obtain ⟨-, -, hgone, -⟩ := spent_of_isDisposed
      (s := ⟨(Recipient.zeroKey "a").dispose, a, .cbcHmac 256 .sha256⟩) rfl
    have hroom : c.ciphertext.length ≤ buffer.length := by
      rw [hlength]
      decide
    rw [heach c [] buffer _ hroom, List.map_cons, List.map_cons, List.map_nil, hopen]
    exact congrArg (· :: _) (hgone c [])
  · have htag : ([] : Bytes).length ≠ ContentCipher.tagLength (.cbcHmac 256 .sha256) := by decide
    obtain ⟨hkept, -⟩ := hleaves _ { c with tag := [] } [] buffer (.live ha hs)
    obtain ⟨fault, hfault, houtcome⟩ := hkept.of_refuses (.tagLength htag)
    rw [houtcome, hfault.eq_integrity rfl (hlength ▸ by decide)]

end Sealer

end TokenSeal
