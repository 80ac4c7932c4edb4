import TokenSeal.Proofs.KeySizes
import TokenSeal.Proofs.Precedence
import TokenSeal.Proofs.SealedIssue
import TokenSeal.Proofs.SignedRoundTrip

/-! Which key an algorithm gets, and how the search for one can fail. The first key that fits is
taken, and only then is its size looked at, so that no other key matters; and a key that makes
tokens is tried when they are read. -/

namespace TokenSeal

/-! ### Keys that fit -/

/-- What a key with this usage is for. -/
inductive KeyUsage.Serves : KeyUsage → Family → Prop where
  | sign : Serves .signing .signature
  | encrypt : Serves .encryption .contentEncryption
  | manage : Serves .encryption .keyManagement

/-- The moment is within the validity of a key, and the family within its usage. Neither is limited
unless there is a hint that does so. -/
structure KeyMetadata.Suggests (m : KeyMetadata) (now : Int) (family : Family) : Prop where
  begun : ∀ t, m.notBefore = some t → t ≤ now
  going : ∀ t, m.expiresAt = some t → now < t
  usage : ∀ u, m.usage = some u → u.Serves family

/-- The key lives and has the type that the algorithm takes. It has the id that is asked for, or
else, if it is to make tokens, its hints speak for it. -/
structure SecretKey.Fits (k : SecretKey) (a : Algorithm) (s : KeySelector) : Prop where
  live : k.isDisposed = false
  type : k.profile.effective = a.keyType
  named : ∀ id, s.kid = some id → k.id = some id
  hinted : ∀ now, s.kid = none → s.purpose = .encode now → k.metadata.Suggests now a.family

theorem KeyUsage.permits_iff {u : KeyUsage} {family : Family} :
    u.permits family = true ↔ u.Serves family := by
  constructor
  · intro h
    cases u <;> cases family <;> first | constructor | cases h
  · rintro (_ | _ | _) <;> rfl

theorem KeyMetadata.suggests_iff {m : KeyMetadata} {now : Int} {family : Family} :
    (m.isValidAt now && m.usage.all (·.permits family)) = true ↔ m.Suggests now family := by
  simp only [isValidAt, Bool.and_eq_true, Option.all_eq_true, decide_eq_true_eq,
    KeyUsage.permits_iff]
  exact ⟨fun ⟨⟨hbegun, hgoing⟩, husage⟩ => ⟨hbegun, hgoing, husage⟩,
    fun h => ⟨⟨h.begun, h.going⟩, h.usage⟩⟩

section Fits

variable {a : Algorithm} {s : KeySelector} {keys : List SecretKey} {k : SecretKey}

theorem isCandidate_iff_fits : isCandidate a s k = true ↔ k.Fits a s := by
  by_cases hout : k.isDisposed = true ∨ (!a.accepts k.profile.effective) = true
  · rw [isCandidate, if_pos hout]
    refine iff_of_false Bool.false_ne_true fun h => ?_
    simp [h.live, h.type, Algorithm.accepts] at hout
  · rw [isCandidate, if_neg hout]
    simp only [Algorithm.accepts, not_or, Bool.not_eq_true, Bool.not_eq_false',
      decide_eq_true_eq] at hout
    obtain ⟨kid, purpose⟩ := s
    -- An id settles it; without one the purpose does.
    rcases kid with _ | id
    · cases purpose with
      | decode => exact iff_of_true rfl ⟨hout.1, hout.2.symm, by rintro _ ⟨⟩, by rintro _ - ⟨⟩⟩
      | encode now =>
        refine KeyMetadata.suggests_iff.trans ⟨fun h => ?_, fun h => h.hinted now rfl rfl⟩
        exact ⟨hout.1, hout.2.symm, by rintro _ ⟨⟩, by rintro _ - ⟨⟩; exact h⟩
    · refine decide_eq_true_iff.trans ⟨fun h => ?_, fun h => h.named id rfl⟩
      exact ⟨hout.1, hout.2.symm, by rintro _ ⟨⟩; exact h, by rintro _ ⟨⟩⟩

/-- The key that an algorithm gets: the empty key if it takes none, or the first one that fits. -/
inductive Chosen (a : Algorithm) (s : KeySelector) : List SecretKey → SecretKey → Prop where
  | empty {keys : List SecretKey} (hkeyless : a.keyType = .none) : Chosen a s keys SecretKey.empty
  | first {before after : List SecretKey} {k : SecretKey} (hkeyed : a.keyType ≠ .none)
      (hbefore : ∀ other ∈ before, ¬ other.Fits a s) (hk : k.Fits a s) :
      Chosen a s (before ++ k :: after) k

theorem Chosen.live (h : Chosen a s keys k) : k.isDisposed = false := by
  cases h with
  | empty hkeyless => rfl
  | first hkeyed hbefore hk => exact hk.live

theorem Chosen.type (h : Chosen a s keys k) : k.profile.effective = a.keyType := by
  cases h with
  | empty hkeyless => exact hkeyless.symm
  | first hkeyed hbefore hk => exact hk.type

theorem candidates_of_keyed (hkeyed : a.keyType ≠ .none) :
    candidates a keys s = keys.filter (isCandidate a s) :=
  if_neg hkeyed

theorem selectKey_eq_ok : selectKey a keys s = .ok k ↔ Chosen a s keys k := by
  by_cases ha : a.keyType = .none
  · have hempty : selectKey a keys s = .ok SecretKey.empty := by simp [selectKey, candidates, ha]
    rw [hempty, Except.ok.injEq]
    constructor
    · rintro rfl
      exact .empty ha
    · rintro (_ | ⟨hkeyed, -, -⟩)
      · rfl
      · exact absurd ha hkeyed
  · constructor
    · intro h
      rw [selectKey, candidates_of_keyed ha] at h
      split at h
      · next k' rest hfilter =>
        cases h
        obtain ⟨before, after, rfl, hbefore, hk, -⟩ := List.filter_eq_cons_iff.1 hfilter
        exact .first ha (fun other hother hfits => hbefore other hother
          (isCandidate_iff_fits.2 hfits)) (isCandidate_iff_fits.1 hk)
      · cases h
    · rintro (hkeyless | ⟨-, hbefore, hk⟩)
      · exact absurd hkeyless ha
      · next before after =>
        have hfilter : candidates a (before ++ k :: after) s =
            k :: after.filter (isCandidate a s) := by
          rw [candidates_of_keyed ha]
          exact List.filter_eq_cons_iff.2 ⟨before, after, rfl, fun other hother hfits =>
            hbefore other hother (isCandidate_iff_fits.1 hfits), isCandidate_iff_fits.2 hk, rfl⟩
        rw [selectKey, hfilter]

theorem selectKey_of_none (hkeyed : a.keyType ≠ .none) (hnone : ∀ k ∈ keys, ¬ k.Fits a s) :
    selectKey a keys s = .error (.noMatchingKey a.code) := by
  have hfilter : candidates a keys s = [] := by
    rw [candidates_of_keyed hkeyed]
    exact List.filter_eq_nil_iff.2 fun k hk hfits => hnone k hk (isCandidate_iff_fits.1 hfits)
  rw [selectKey, hfilter]

theorem selectKey_cases (a : Algorithm) (s : KeySelector) (keys : List SecretKey) :
    (∃ k, Chosen a s keys k) ∨ a.keyType ≠ .none ∧ ∀ k ∈ keys, ¬ k.Fits a s := by
  by_cases hchosen : ∃ k, selectKey a keys s = .ok k
  · obtain ⟨k, hk⟩ := hchosen
    exact .inl ⟨k, selectKey_eq_ok.1 hk⟩
  · have hkeyed : a.keyType ≠ .none := fun ha => hchosen ⟨_, selectKey_eq_ok.2 (.empty ha)⟩
    refine .inr ⟨hkeyed, fun k hk hfits => hchosen ?_⟩
    have hmem : k ∈ candidates a keys s := by
      rw [candidates_of_keyed hkeyed]
      exact List.mem_filter.2 ⟨hk, isCandidate_iff_fits.2 hfits⟩
    obtain ⟨first, rest, hlist⟩ := List.exists_cons_of_ne_nil (List.ne_nil_of_mem hmem)
    exact ⟨first, by rw [selectKey, hlist]⟩

end Fits

/-! ### Factories -/

/-- What binds keys to the algorithms of one family, as it was set up. -/
inductive Factory where
  | signing
  | sealing
  | wrapping (limits : PasswordLimits)
  | compressing (limit : Nat)

namespace Factory

def Provider : Factory → Type
  | signing => Signer
  | sealing => Sealer
  | wrapping _ => KeyWrapper
  | compressing _ => Compressor

def family : Factory → Family
  | signing => .signature
  | sealing => .contentEncryption
  | wrapping _ => .keyManagement
  | compressing _ => .compression

def bind : (f : Factory) → SecretKey → Algorithm → Except Fault f.Provider
  | signing => Signer.bind
  | sealing => Sealer.bind
  | wrapping limits => KeyWrapper.bind limits
  | compressing limit => Compressor.bind limit

/-- The provider uses the algorithm as the factory was set up to, with the key. A compressor is
checked against its key and does not keep it. -/
def Binds : (f : Factory) → f.Provider → SecretKey → Algorithm → Prop
  | signing, s, k, a => s.key = k ∧ s.algorithm = a ∧ a.method = .signature s.method ∧
      s.size = Signer.sizeOf k s.method
  | sealing, s, k, a => s.key = k ∧ s.algorithm = a ∧ a.method = .contentEncryption s.cipher
  | wrapping limits, w, k, a => w.key = k ∧ w.algorithm = a ∧ a.method = .keyManagement w.method ∧
      w.limits = limits ∧ w.party = {}
  | compressing limit, c, _, a => c.algorithm = a ∧ a.method = .compression c.method ∧
      c.limit = limit

variable {f : Factory} {b b' : f.Provider} {k : SecretKey} {a : Algorithm}

theorem Binds.unique (h : f.Binds b k a) (h' : f.Binds b' k a) : b = b' := by
  cases f with
  | signing =>
    obtain ⟨key, algorithm, method, size⟩ := b
    obtain ⟨key', algorithm', method', size'⟩ := b'
    obtain ⟨rfl, rfl, hmethod, hsize⟩ := h
    obtain ⟨rfl, rfl, hmethod', hsize'⟩ := h'
    cases hmethod.symm.trans hmethod'
    exact congrArg (Signer.mk _ _ _) (hsize.trans hsize'.symm)
  | sealing =>
    obtain ⟨key, algorithm, cipher⟩ := b
    obtain ⟨key', algorithm', cipher'⟩ := b'
    obtain ⟨rfl, rfl, hmethod⟩ := h
    obtain ⟨rfl, rfl, hmethod'⟩ := h'
    cases hmethod.symm.trans hmethod'
    rfl
  | wrapping limits =>
    obtain ⟨key, algorithm, method, limits, party⟩ := b
    obtain ⟨key', algorithm', method', limits', party'⟩ := b'
    obtain ⟨rfl, rfl, hmethod, rfl, rfl⟩ := h
    obtain ⟨rfl, rfl, hmethod', rfl, rfl⟩ := h'
    cases hmethod.symm.trans hmethod'
    rfl
  | compressing limit =>
    obtain ⟨algorithm, method, limit⟩ := b
    obtain ⟨algorithm', method', limit'⟩ := b'
    obtain ⟨rfl, hmethod, rfl⟩ := h
    obtain ⟨rfl, hmethod', rfl⟩ := h'
    cases hmethod.symm.trans hmethod'
    rfl

theorem binds_of_bind (h : f.bind k a = .ok b) : f.Binds b k a := by
  cases f with
  | signing =>
    obtain ⟨m, hm, -, rfl⟩ := Signer.bind_eq_ok.1 h
    exact ⟨rfl, rfl, hm, rfl⟩
  | sealing =>
    obtain ⟨c, hc, -, rfl⟩ := Sealer.bind_eq_ok.1 h
    exact ⟨rfl, rfl, hc⟩
  | wrapping limits =>
    obtain ⟨m, hm, -, rfl⟩ := KeyWrapper.bind_eq_ok.1 h
    exact ⟨rfl, rfl, hm, rfl, rfl⟩
  | compressing limit =>
    obtain ⟨_, -, h⟩ := TokenSeal.bind_eq_ok.1 h
    split at h
    · next m hm =>
      cases h
      exact ⟨rfl, hm, rfl⟩
    · cases h

theorem sizeDecides_bind (hf : a.family = f.family) (hk : k.isDisposed = false)
    (ht : k.profile.effective = a.keyType) : SizeDecides (f.bind k a) a k.profile.bits := by
  cases f with
  | signing => exact Signer.sizeDecides_bind hf hk ht
  | sealing => exact Sealer.sizeDecides_bind hf hk ht
  | wrapping limits => exact KeyWrapper.sizeDecides_bind limits hf hk ht
  | compressing limit => exact Compressor.sizeDecides_bind limit hf hk ht

theorem bind_of_admits (hf : a.family = f.family) (hk : k.isDisposed = false)
    (ht : k.profile.effective = a.keyType) (hsize : a.Admits k.profile.bits) :
    ∃ b, f.bind k a = .ok b ∧ f.Binds b k a := by
  obtain ⟨-, b, hb⟩ | ⟨hnot, -⟩ := sizeDecides_bind hf hk ht
  · exact ⟨b, hb, binds_of_bind hb⟩
  · exact absurd hsize hnot

theorem bind_of_not_admits (hf : a.family = f.family) (hk : k.isDisposed = false)
    (ht : k.profile.effective = a.keyType) (hsize : ¬ a.Admits k.profile.bits) :
    f.bind k a = .error (.invalidKeySize a.code k.profile.bits) := by
  obtain ⟨hadmits, -⟩ | ⟨-, hrefused⟩ := sizeDecides_bind hf hk ht
  · exact absurd hadmits hsize
  · exact hrefused

/-- A header of a token that is made with the provider. Only a key without an id leaves it to the
members asked for to name one. -/
def Heads : (f : Factory) → f.Provider → Header → Prop
  | signing, s, h => ∃ (i : Issuer) (extra : Header),
      (s.key.id = none → extra.get? "kid" = none) ∧ h = i.signedHeader s extra
  | wrapping _, w, h => ∃ o party enc zip cty parameters extra,
      (w.key.id = none → extra.get? "kid" = none) ∧
        h = Issuer.finishHeader o
          (Issuer.sealedMembers (w.withParty party) enc zip cty parameters) extra
  | _, _, _ => False

theorem kid?_of_heads (hb : f.Binds b k a) {h : Header} (hh : f.Heads b h) : h.kid? = k.id := by
  have hkid : ∀ (id : Option String) (extra : Header) (o : Options) (mandated : Header),
      mandated.get? "kid" = id.map .string → (id = none → extra.get? "kid" = none) →
        (Issuer.finishHeader o mandated extra).kid? = id := by
    intro id extra o mandated hmandated hextra
    rw [Header.kid?, Header.text?, Header.get?_finishHeader, hmandated, if_neg (by decide),
      Option.or_none]
    cases id with
    | none => simp [hextra rfl]
    | some id => rfl
  cases f with
  | signing =>
    obtain ⟨i, extra, hextra, rfl⟩ := hh
    obtain ⟨rfl, -⟩ := hb
    refine hkid _ extra _ _ ?_ hextra
    rw [Header.get?_insertText, if_pos rfl, Header.get?_insert, if_neg (by decide),
      Header.get?_empty, Option.or_none]
  | wrapping limits =>
    obtain ⟨o, party, enc, zip, cty, parameters, extra, hextra, rfl⟩ := hh
    obtain ⟨rfl, -⟩ := hb
    exact hkid _ extra _ _ (Issuer.get?_sealedMembers _ _ _ _ _ (by decide)) hextra
  | sealing => exact hh.elim
  | compressing limit => exact hh.elim

end Factory

/-! ### Resolving -/

/-- The ways in which a search can end. -/
inductive Resolves (f : Factory) (known : List Algorithm) (code : String) (s : KeySelector)
    (keys : List SecretKey) : Except Fault f.Provider → Prop where
  | unknown (hcode : code ∉ Algorithm.codes known f.family) :
      Resolves f known code s keys (.error (.unknownAlgorithm code))
  | unmatched {a : Algorithm} (ha : Algorithm.find known f.family code = .ok a)
      (hkeyed : a.keyType ≠ .none) (hnone : ∀ k ∈ keys, ¬ k.Fits a s) :
      Resolves f known code s keys (.error (.noMatchingKey code))
  | illegal {a : Algorithm} {k : SecretKey} (ha : Algorithm.find known f.family code = .ok a)
      (hk : Chosen a s keys k) (hsize : ¬ a.Admits k.profile.bits) :
      Resolves f known code s keys (.error (.invalidKeySize code k.profile.bits))
  | bound {a : Algorithm} {k : SecretKey} {b : f.Provider}
      (ha : Algorithm.find known f.family code = .ok a) (hk : Chosen a s keys k)
      (hsize : a.Admits k.profile.bits) (hb : f.Binds b k a) :
      Resolves f known code s keys (.ok b)

section Resolve

variable {f : Factory} {known : List Algorithm} {code : String} {s : KeySelector}
  {keys keys' : List SecretKey} {a : Algorithm} {k : SecretKey}

theorem resolve_of_unknown (hcode : code ∉ Algorithm.codes known f.family) :
    resolve f.bind f.family known code keys s = .error (.unknownAlgorithm code) := by
  rw [Algorithm.mem_codes_iff_find] at hcode
  unfold resolve Algorithm.find
  split
  · next a ha => exact absurd ⟨a, Algorithm.find_eq_ok_iff_find?.2 ha⟩ hcode
  · rfl

theorem resolve_of_chosen (ha : Algorithm.find known f.family code = .ok a)
    (hk : Chosen a s keys k) : resolve f.bind f.family known code keys s = f.bind k a := by
  rw [resolve, ha, ok_bind, selectKey_eq_ok.2 hk, ok_bind]

theorem resolve_of_none (ha : Algorithm.find known f.family code = .ok a)
    (hkeyed : a.keyType ≠ .none) (hnone : ∀ k ∈ keys, ¬ k.Fits a s) :
    resolve f.bind f.family known code keys s = .error (.noMatchingKey code) := by
  rw [resolve, ha, ok_bind, selectKey_of_none hkeyed hnone, (Algorithm.find_eq_ok ha).2.2]
  rfl

theorem resolves_resolve (f : Factory) (known : List Algorithm) (code : String) (s : KeySelector)
    (keys : List SecretKey) :
    Resolves f known code s keys (resolve f.bind f.family known code keys s) := by
  by_cases hcode : code ∈ Algorithm.codes known f.family
  · obtain ⟨a, ha⟩ := Algorithm.mem_codes_iff_find.1 hcode
    obtain ⟨-, hfamily, hname⟩ := Algorithm.find_eq_ok ha
    obtain ⟨k, hk⟩ | ⟨hkeyed, hnone⟩ := selectKey_cases a s keys
    · rw [resolve_of_chosen ha hk]
      by_cases hsize : a.Admits k.profile.bits
      · obtain ⟨b, hbind, hb⟩ := Factory.bind_of_admits hfamily hk.live hk.type hsize
        rw [hbind]
        exact .bound ha hk hsize hb
      · rw [Factory.bind_of_not_admits hfamily hk.live hk.type hsize, hname]
        exact .illegal ha hk hsize
    · rw [resolve_of_none ha hkeyed hnone]
      exact .unmatched ha hkeyed hnone
  · rw [resolve_of_unknown hcode]
    exact .unknown hcode

theorem resolve_of_resolves {r : Except Fault f.Provider} (h : Resolves f known code s keys r) :
    resolve f.bind f.family known code keys s = r := by
  cases h with
  | unknown hcode => exact resolve_of_unknown hcode
  | unmatched ha hkeyed hnone => exact resolve_of_none ha hkeyed hnone
  | illegal ha hk hsize =>
    obtain ⟨-, hfamily, hname⟩ := Algorithm.find_eq_ok ha
    rw [resolve_of_chosen ha hk, Factory.bind_of_not_admits hfamily hk.live hk.type hsize, hname]
  | bound ha hk hsize hb =>
    obtain ⟨-, hfamily, -⟩ := Algorithm.find_eq_ok ha
    obtain ⟨b, hbind, hb'⟩ := Factory.bind_of_admits hfamily hk.live hk.type hsize
    rw [resolve_of_chosen ha hk, hbind, hb'.unique hb]

/-- Nothing but the candidates counts. -/
theorem resolve_congr (h : ∀ a, Algorithm.find known f.family code = .ok a → a.keyType ≠ .none →
    candidates a keys s = candidates a keys' s) :
    resolve f.bind f.family known code keys s = resolve f.bind f.family known code keys' s := by
  cases ha : Algorithm.find known f.family code with
  | error cause => rw [resolve, resolve, ha, error_bind, error_bind]
  | ok a =>
    have hsame : candidates a keys s = candidates a keys' s := by
      by_cases hkeyed : a.keyType = .none
      · simp [candidates, hkeyed]
      · exact h a ha hkeyed
    rw [resolve, resolve, ha, ok_bind, ok_bind, selectKey, selectKey, hsame]

theorem resolve_of_misfits {before others after : List SecretKey}
    (h : ∀ a, Algorithm.find known f.family code = .ok a → ∀ k ∈ others, ¬ k.Fits a s) :
    resolve f.bind f.family known code (before ++ others ++ after) s =
      resolve f.bind f.family known code (before ++ after) s := by
  refine resolve_congr fun a ha hkeyed => ?_
  have hnone : others.filter (isCandidate a s) = [] :=
    List.filter_eq_nil_iff.2 fun k hk hfits => h a ha k hk (isCandidate_iff_fits.1 hfits)
  simp only [candidates_of_keyed hkeyed, List.filter_append, hnone, List.append_nil]

theorem resolve_of_fits {before after after' : List SecretKey}
    (ha : Algorithm.find known f.family code = .ok a) (hk : k.Fits a s) :
    resolve f.bind f.family known code (before ++ k :: after) s =
      resolve f.bind f.family known code (before ++ k :: after') s := by
  have hsame : selectKey a (before ++ k :: after) s = selectKey a (before ++ k :: after') s := by
    have hhead : ∀ rest, (before ++ k :: rest).filter (isCandidate a s) =
        before.filter (isCandidate a s) ++ k :: rest.filter (isCandidate a s) := by
      intro rest
      rw [List.filter_append, List.filter_cons_of_pos (isCandidate_iff_fits.2 hk)]
    by_cases hkeyed : a.keyType = .none
    · simp [selectKey, candidates, hkeyed]
    · rw [selectKey, selectKey, candidates_of_keyed hkeyed, candidates_of_keyed hkeyed, hhead,
        hhead]
      cases before.filter (isCandidate a s) <;> rfl
  rw [resolve, resolve, ha, ok_bind, ok_bind, hsame]

/-- A key is tried for the tokens that name it. -/
theorem Chosen.mem_candidates (h : Chosen a s keys k) : k ∈ candidates a keys ⟨k.id, .decode⟩ := by
  cases h with
  | empty hkeyless => simp [candidates, hkeyless]
  | first hkeyed hbefore hk =>
    rw [candidates_of_keyed hkeyed, List.mem_filter, isCandidate_iff_fits]
    exact ⟨List.mem_append_right _ List.mem_cons_self,
      ⟨hk.live, hk.type, fun id hid => hid, by rintro _ - ⟨⟩⟩⟩

end Resolve

/-- A search for an algorithm and a key ends as `Resolves` says and in no other way; it fails for an
unknown algorithm exactly when no algorithm of the family has the code. An algorithm without keys
gets the empty key. Keys that do not fit may come and go anywhere, and keys after one that fits may
be any; and the key that makes tokens is among those that are tried for the id that their headers
have. -/
theorem resolve_eq_iff_resolves (f : Factory) (known : List Algorithm) (code : String)
    (s : KeySelector) (keys : List SecretKey) :
    (∀ r, resolve f.bind f.family known code keys s = r ↔ Resolves f known code s keys r) ∧
    ((∃ name, resolve f.bind f.family known code keys s = .error (.unknownAlgorithm name)) ↔
      ∀ a ∈ known, a.isNamed f.family code = false) ∧
    (∀ a, Algorithm.find known f.family code = .ok a → a.keyType = .none →
      resolve f.bind f.family known code keys s = f.bind SecretKey.empty a) ∧
    (∀ before others after, keys = before ++ after →
      (∀ a, Algorithm.find known f.family code = .ok a → ∀ k ∈ others, ¬ k.Fits a s) →
        resolve f.bind f.family known code (before ++ others ++ after) s =
          resolve f.bind f.family known code keys s) ∧
    (∀ a before k after, Algorithm.find known f.family code = .ok a → keys = before ++ k :: after →
      k.Fits a s → ∀ others, resolve f.bind f.family known code (before ++ k :: others) s =
        resolve f.bind f.family known code keys s) ∧
    ∀ b, resolve f.bind f.family known code keys s = .ok b →
      ∃ a k, Algorithm.find known f.family code = .ok a ∧ Chosen a s keys k ∧ f.Binds b k a ∧
        k ∈ candidates a keys ⟨k.id, .decode⟩ ∧
        ∀ h, f.Heads b h → k ∈ candidates a keys ⟨h.kid?, .decode⟩ := by
  have hiff : ∀ r, resolve f.bind f.family known code keys s = r ↔
      Resolves f known code s keys r :=
    fun r => ⟨fun h => h ▸ resolves_resolve f known code s keys, resolve_of_resolves⟩
  refine ⟨hiff, ⟨?_, fun hnone => ⟨code, resolve_of_unknown ?_⟩⟩,
    fun a ha hkeyless => resolve_of_chosen ha (.empty hkeyless), ?_, ?_, fun b hb => ?_⟩
  · rintro ⟨name, hname⟩ a ha
    cases (hiff _).1 hname with
    | unknown hcode =>
      exact Bool.eq_false_iff.2 fun hnamed => hcode (Algorithm.mem_codes.2 ⟨a, ha, hnamed⟩)
  · rintro hcode
    obtain ⟨a, ha, hnamed⟩ := Algorithm.mem_codes.1 hcode
    simp [hnone a ha] at hnamed
  · rintro before others after rfl hothers
    exact resolve_of_misfits hothers
  · rintro a before k after ha rfl hk others
    exact resolve_of_fits ha hk
  · cases (hiff _).1 hb with
    | bound ha hk hsize hbinds =>
      refine ⟨_, _, ha, hk, hbinds, hk.mem_candidates, fun h hh => ?_⟩
      rw [Factory.kid?_of_heads hbinds hh]
      exact hk.mem_candidates

/-- The key `old` has expired, and `short` is too short for a hash of 32 bytes. -/
def shelfKeys : List SecretKey :=
  [.make (some "old") (.symmetric (Bytes.zeros 32)) { expiresAt := some 1 },
    .make (some "short") (.symmetric (Bytes.zeros 16)) {}, Recipient.zeroKey "a"]

/-- The short key is taken and refused, though a good one comes after it; it is so without the
other two. By its id the expired key still signs, and it is tried for what it signed. -/
theorem resolve_eq_iff_resolves_shelf :
    let a := Algorithm.hmac "HS256" .sha256
    let hs256 := resolve Signer.bind .signature Algorithm.builtin "HS256"
    (∀ k ∈ shelfKeys.take 1, ¬ k.Fits a ⟨none, .encode 5⟩) ∧
      hs256 shelfKeys ⟨none, .encode 5⟩ = .error (.invalidKeySize "HS256" 128) ∧
      hs256 (shelfKeys.drop 1) ⟨none, .encode 5⟩ = .error (.invalidKeySize "HS256" 128) ∧
      ∃ s, hs256 shelfKeys ⟨some "old", .encode 5⟩ = .ok s ∧
        ∀ i : Issuer, ∃ k ∈ candidates a shelfKeys ⟨(i.signedHeader s .empty).kid?, .decode⟩,
          k.id = some "old" ∧ s.key = k := by
  intro a hs256
  have ha : Algorithm.find Algorithm.builtin .signature "HS256" = .ok a := rfl
  have hmisfits : ∀ k ∈ shelfKeys.take 1, ¬ k.Fits a ⟨none, .encode 5⟩ := by
    simp only [← isCandidate_iff_fits]
    decide
  have hshort : Chosen a ⟨none, .encode 5⟩ shelfKeys
      (.make (some "short") (.symmetric (Bytes.zeros 16)) {}) :=
    .first (by decide) hmisfits (isCandidate_iff_fits.1 rfl)
  have hold : Chosen a ⟨some "old", .encode 5⟩ shelfKeys
      (.make (some "old") (.symmetric (Bytes.zeros 32)) { expiresAt := some 1 }) :=
    .first (by decide) (List.forall_mem_nil _) (isCandidate_iff_fits.1 rfl)
  obtain ⟨hiff, -⟩ := resolve_eq_iff_resolves .signing Algorithm.builtin "HS256"
    ⟨none, .encode 5⟩ shelfKeys
  obtain ⟨-, -, -, hothers, -⟩ := resolve_eq_iff_resolves .signing Algorithm.builtin "HS256"
    ⟨none, .encode 5⟩ (shelfKeys.drop 1)
  obtain ⟨hiff', -, -, -, -, hmade⟩ := resolve_eq_iff_resolves .signing Algorithm.builtin "HS256"
    ⟨some "old", .encode 5⟩ shelfKeys
  have hrefused : hs256 shelfKeys ⟨none, .encode 5⟩ = .error (.invalidKeySize "HS256" 128) :=
    (hiff _).2 (.illegal ha hshort (by rw [← Algorithm.isLegalSize_iff]; decide))
  have hbound : hs256 shelfKeys ⟨some "old", .encode 5⟩ = .ok _ :=
    (hiff' _).2 (.bound (f := .signing) (b := ⟨_, a, .hmac .sha256, 32⟩) ha hold
      (Algorithm.isLegalSize_iff.1 (by decide)) ⟨rfl, rfl, rfl, rfl⟩)
  refine ⟨hmisfits, hrefused, ?_, _, hbound, fun i => ?_⟩
  · rw [← hrefused]
    exact (hothers [] (shelfKeys.take 1) _ rfl fun b hb => by
      obtain rfl : a = b := Except.ok.inj (ha.symm.trans hb)
      exact hmisfits).symm
  · obtain ⟨b, k, hb, hk, hbinds, -, hheads⟩ := hmade _ hbound
    obtain rfl : a = b := Except.ok.inj (ha.symm.trans hb)
    exact ⟨k, hheads _ ⟨i, .empty, fun _ => rfl, rfl⟩, by rw [← hbinds.1], hbinds.1⟩

end TokenSeal
