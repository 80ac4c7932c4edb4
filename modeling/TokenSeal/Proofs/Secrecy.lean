import TokenSeal.Key.Record
import TokenSeal.Proofs.KeyExchange
import TokenSeal.Proofs.Signatures

/-! What is given out of a key in the open, and what a person sees who inspects it, is settled by
its public half. Two keys that agree on that cannot be told apart there, whatever their secrets
are. -/

namespace TokenSeal

/-! ### Public halves -/

theorem KeyPair.keyType_toPublic (p : KeyPair) : p.toPublic.keyType = p.keyType := by
  cases p <;> rfl

namespace KeyMaterial

/-- What anyone may know of the material. All that secret bytes leave is their kind. -/
def publicHalf : KeyMaterial → KeyMaterial
  | none => none
  | symmetric _ => symmetric []
  | pair p => pair p.toPublic
  | certificate der p => certificate der p.toPublic

theorem keyType_publicHalf (m : KeyMaterial) : m.publicHalf.keyType = m.keyType := by
  cases m with
  | pair p => exact p.keyType_toPublic
  | _ => rfl

variable {m m' : KeyMaterial}

theorem keyType_of_publicHalf_eq (h : m.publicHalf = m'.publicHalf) : m.keyType = m'.keyType := by
  rw [← m.keyType_publicHalf, h, m'.keyType_publicHalf]

theorem inspect_of_publicHalf_eq (h : m.publicHalf = m'.publicHalf)
    (hsize : m.sizeBits = m'.sizeBits) : m.inspect = m'.inspect := by
  rw [inspect, inspect, keyType_of_publicHalf_eq h, hsize]

end KeyMaterial

/-! ### JSON Web Keys -/

namespace Jwk

theorem toPublic_toPublic (j : Jwk) : j.toPublic.toPublic = j.toPublic := rfl

theorem isPrivate_toPublic (j : Jwk) : j.toPublic.isPrivate = false := rfl

/-- Has no member that `toPublic` takes out. -/
def Open (j : Jwk) : Prop := j.k = none ∧ j.d = none ∧ j.p = none ∧ j.q = none

theorem open_toPublic (j : Jwk) : j.toPublic.Open := ⟨rfl, rfl, rfl, rfl⟩

theorem inspect_of_toPublic_eq {j j' : Jwk} (h : j.toPublic = j'.toPublic)
    (hprivate : j.isPrivate = j'.isPrivate) : j.inspect = j'.inspect := by
  have hkty : j.kty = j'.kty := congrArg (fun j => j.kty) h
  have hkid : j.kid = j'.kid := congrArg (fun j => j.kid) h
  have halg : j.alg = j'.alg := congrArg (fun j => j.alg) h
  have hcrv : j.crv = j'.crv := congrArg (fun j => j.crv) h
  rw [inspect, inspect, hkty, hkid, halg, hcrv, hprivate]

end Jwk

/-! ### Keys -/

namespace SecretKey

/-- Live keys that have all in common but their secrets; one of them may have none. -/
structure SamePublic (k k' : SecretKey) : Prop where
  id : k.id = k'.id
  metadata : k.metadata = k'.metadata
  material : ∃ m m', k.material = some m ∧ k'.material = some m' ∧ m.publicHalf = m'.publicHalf

theorem exportPair_toPublic (p : KeyPair) (frame : Jwk) :
    exportPair p.toPublic false frame = exportPair p false frame := by
  cases p with
  | ec k => rfl
  | rsa k => exact (exportRsa_false k.toPublic frame).trans (exportRsa_false k frame).symm

/-- The public export reads the public half alone. -/
theorem toJwk_publicHalf (id : Option String) (m : KeyMaterial) (metadata : KeyMetadata) :
    (make id m.publicHalf metadata).toJwk false = (make id m metadata).toJwk false := by
  cases m with
  | none => rfl
  | symmetric bytes => rfl
  | pair p => exact exportPair_toPublic p _
  | certificate der p => exact exportPair_toPublic p _

theorem toJwk_of_material {k : SecretKey} {m : KeyMaterial} (hm : k.material = some m)
    (withPrivate : Bool) :
    k.toJwk withPrivate = (make k.id m k.metadata).toJwk withPrivate := by
  rw [toJwk, read, hm]
  rfl

theorem SamePublic.toJwk_eq {k k' : SecretKey} (h : k.SamePublic k') :
    k.toJwk false = k'.toJwk false := by
  obtain ⟨m, m', hm, hm', hpublic⟩ := h.material
  rw [toJwk_of_material hm, toJwk_of_material hm', h.id, h.metadata, ← toJwk_publicHalf, hpublic,
    toJwk_publicHalf]

theorem exists_exportPair (p : KeyPair) (frame : Jwk) :
    ∃ j, exportPair p false frame = .ok j := by
  cases p with
  | ec k => exact ⟨_, rfl⟩
  | rsa k => exact ⟨_, exportRsa_false k frame⟩

/-- Only a key pair, behind a certificate or not, is exported without its secrets. -/
theorem exists_toJwk_false_iff {k : SecretKey} {m : KeyMaterial} (hm : k.material = some m) :
    (∃ j, k.toJwk false = .ok j) ↔ ∃ p, m.effective = .pair p := by
  rw [toJwk_of_material hm]
  constructor
  · rintro ⟨j, hj⟩
    cases m with
    | none => cases hj
    | symmetric bytes => cases hj
    | pair p => exact ⟨p, rfl⟩
    | certificate der p => exact ⟨p, rfl⟩
  · rintro ⟨p, hp⟩
    cases m with
    | none => cases hp
    | symmetric bytes => cases hp
    | pair p => exact exists_exportPair p _
    | certificate der p => exact exists_exportPair p _

/-- An export with secrets, once they are taken out, is the export without them. -/
theorem exportPair_of_exportPair {p : KeyPair} {withPrivate : Bool} {frame j : Jwk}
    (h : exportPair p withPrivate frame = .ok j) :
    exportPair p false frame.toPublic = .ok j.toPublic := by
  cases p with
  | ec k =>
    cases h
    rfl
  | rsa k =>
    refine (exportRsa_false k frame.toPublic).trans (congrArg Except.ok ?_)
    obtain rfl | ⟨d, p, q, -, -, rfl⟩ := exportRsa_eq_ok h <;> rfl

theorem toJwk_false_of_toJwk {k : SecretKey} {withPrivate : Bool} {j w : Jwk}
    (hj : k.toJwk false = .ok j) (hw : k.toJwk withPrivate = .ok w) : j = w.toPublic := by
  obtain ⟨m, hm, hj⟩ := bind_eq_ok.1 hj
  obtain ⟨m', hm', hw⟩ := bind_eq_ok.1 hw
  obtain rfl : m = m' := Except.ok.inj (hm.symm.trans hm')
  cases m with
  | none => cases hj
  | symmetric bytes => cases hj
  | pair p => exact Except.ok.inj (hj.symm.trans (exportPair_of_exportPair hw))
  | certificate der p => exact Except.ok.inj (hj.symm.trans (exportPair_of_exportPair hw))

theorem open_of_toJwk {k : SecretKey} {j : Jwk} (h : k.toJwk false = .ok j) : j.Open := by
  rw [toJwk_false_of_toJwk h h]
  exact j.open_toPublic

/-- What the texts of live keys show, and those of the same keys when they are disposed of. -/
theorem SamePublic.inspect_eq {k k' : SecretKey} (h : k.SamePublic k')
    (hbits : k.profile.bits = k'.profile.bits) :
    k.inspect = k'.inspect ∧ k.dispose.inspect = k'.dispose.inspect := by
  obtain ⟨m, m', hm, hm', hpublic⟩ := h.material
  have htype : k.profile.keyType = k'.profile.keyType := by
    rw [k.profile_eq m hm, k'.profile_eq m' hm']
    exact KeyMaterial.keyType_of_publicHalf_eq hpublic
  have hdisposed : k.isDisposed = k'.isDisposed := by
    rw [isDisposed, isDisposed, hm, hm']
    rfl
  constructor
  · rw [inspect, inspect, h.id, htype, hbits, hdisposed]
  · simp only [inspect, dispose, isDisposed, h.id, htype, hbits, Option.isNone_none]

end SecretKey

/-! ### Records and wrapped keys -/

theorem SecretRecord.inspect_value (r : SecretRecord) (value : String) :
    { r with value := value }.inspect = r.inspect := rfl

theorem WrappedKey.inspect_of_lengths {w w' : WrappedKey}
    (hparameters : w.parameters = w'.parameters)
    (hcontent : w.contentKey.length = w'.contentKey.length)
    (hencrypted : w.encryptedKey.length = w'.encryptedKey.length) : w.inspect = w'.inspect := by
  rw [inspect, inspect, hparameters, hcontent, hencrypted]

/-! ### Secrets -/

/-- Secrets show neither in public exports nor in texts for inspection. -/
theorem secrets_unseen :
    (∀ k k' : SecretKey, k.SamePublic k' → k.toJwk false = k'.toJwk false) ∧
    (∀ (k : SecretKey) (j : Jwk), k.toJwk false = .ok j →
      j.k = none ∧ j.d = none ∧ j.p = none ∧ j.q = none ∧
        ∀ whole, k.toJwk true = .ok whole → j = whole.toPublic) ∧
    (∀ (k : SecretKey) (m : KeyMaterial), k.material = some m →
      ((∃ j, k.toJwk false = .ok j) ↔ ∃ p, m.effective = .pair p)) ∧
    (∀ j : Jwk, j.toPublic.toPublic = j.toPublic ∧ j.toPublic.isPrivate = false) ∧
    (∀ k k' : SecretKey, k.SamePublic k' → k.profile.bits = k'.profile.bits →
      k.inspect = k'.inspect ∧ k.dispose.inspect = k'.dispose.inspect) ∧
    (∀ m m' : KeyMaterial, m.publicHalf = m'.publicHalf → m.sizeBits = m'.sizeBits →
      m.inspect = m'.inspect) ∧
    (∀ j j' : Jwk, j.toPublic = j'.toPublic → j.isPrivate = j'.isPrivate →
      j.inspect = j'.inspect) ∧
    (∀ (r : SecretRecord) (value : String), { r with value := value }.inspect = r.inspect) ∧
    ∀ w w' : WrappedKey, w.parameters = w'.parameters →
      w.contentKey.length = w'.contentKey.length →
      w.encryptedKey.length = w'.encryptedKey.length → w.inspect = w'.inspect := by
  refine ⟨fun k k' h => h.toJwk_eq, fun k j hj => ?_,
    fun k m hm => SecretKey.exists_toJwk_false_iff hm,
    fun j => ⟨j.toPublic_toPublic, j.isPrivate_toPublic⟩,
    fun k k' h hbits => h.inspect_eq hbits,
    fun m m' h hsize => KeyMaterial.inspect_of_publicHalf_eq h hsize,
    fun j j' h hprivate => Jwk.inspect_of_toPublic_eq h hprivate,
    fun r value => r.inspect_value value,
    fun w w' hparameters hcontent hencrypted =>
      WrappedKey.inspect_of_lengths hparameters hcontent hencrypted⟩
  obtain ⟨hk, hd, hp, hq⟩ := SecretKey.open_of_toJwk hj
  exact ⟨hk, hd, hp, hq, fun whole hwhole => SecretKey.toJwk_false_of_toJwk hj hwhole⟩

/-- An RSA key and its public half, two passwords of one length, and two wrapped keys. -/
theorem secrets_unseen_small :
    let whole : SecretKey := .make (some "a") (.pair (.rsa ⟨33, 3, some ⟨7, [3, 11]⟩⟩)) {}
    let half : SecretKey := .make (some "a") (.pair (.rsa ⟨33, 3, none⟩)) {}
    let password (b : UInt8) : SecretKey := .make none (.symmetric [1, b]) {}
    let wrapped (b : UInt8) : WrappedKey := ⟨[b], [b, 1], .none⟩
    (∃ j w, whole.toJwk false = .ok j ∧ half.toJwk false = .ok j ∧ whole.toJwk true = .ok w ∧
        w.d.isSome ∧ j = w.toPublic ∧ w.toPublic.inspect ≠ w.inspect) ∧
      whole.inspect = half.inspect ∧
      (∀ b, ¬ ∃ j, (password b).toJwk false = .ok j) ∧
      ∀ b, (password b).inspect = (password 0).inspect ∧
        (wrapped b).inspect = (wrapped 0).inspect := by
  intro whole half password wrapped
  obtain ⟨hexport, hopen, hiff, -, hinspect, -, -, -, hwrapped⟩ := secrets_unseen
  have hsame : whole.SamePublic half := ⟨rfl, rfl, _, _, rfl, rfl, rfl⟩
  obtain ⟨j, hj⟩ := (hiff whole _ rfl).2 ⟨_, rfl⟩
  obtain ⟨-, -, -, -, hpublic⟩ := hopen whole j hj
  refine ⟨⟨j, _, hj, (hexport whole half hsame).symm.trans hj, rfl, rfl, hpublic _ rfl, by decide⟩,
    (hinspect whole half hsame rfl).1, ?_, fun b => ?_⟩
  · intro b hb
    obtain ⟨p, hp⟩ := (hiff (password b) _ rfl).1 hb
    cases hp
  · have hb : (password b).SamePublic (password 0) := ⟨rfl, rfl, _, _, rfl, rfl, rfl⟩
    exact ⟨(hinspect _ _ hb rfl).1, hwrapped _ _ rfl rfl rfl⟩

end TokenSeal
