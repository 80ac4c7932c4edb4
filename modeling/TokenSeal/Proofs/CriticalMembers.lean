import TokenSeal.Proofs.Acceptance
import TokenSeal.Proofs.Nesting

/-! Members that a header calls critical: no token is accepted unless each of them is understood,
and a token is malformed, for every key, if one of them is not. -/

namespace TokenSeal

/-- A header has no `crit`, or one that lists names, at least one, each of which is understood, is
that of a member and has no meaning of its own. -/
def Header.Heeds (h : Header) (understood : List String) : Prop :=
  ∀ v, h.get? "crit" = some v → ∃ names, names ≠ [] ∧ v = .array (names.map .string) ∧
    ∀ name ∈ names, name ∈ understood ∧ h.contains name = true ∧ name ∉ registeredNames

theorem mapM_eq_error {ε α β : Type} {f : α → Except ε β} {xs : List α} {err : ε}
    (h : xs.mapM f = .error err) : ∃ x ∈ xs, f x = .error err := by
  induction xs with
  | nil => cases h
  | cons x rest ih =>
    rw [List.mapM_cons] at h
    cases hx : f x with
    | error e =>
      rw [hx, error_bind, Except.error.injEq] at h
      exact ⟨x, List.mem_cons_self, by rw [hx, h]⟩
    | ok y =>
      cases hrest : rest.mapM f with
      | error e =>
        rw [hx, hrest, ok_bind, error_bind, Except.error.injEq] at h
        obtain ⟨x', hmem, herr⟩ := ih (by rw [hrest, h])
        exact ⟨x', List.mem_cons_of_mem _ hmem, herr⟩
      | ok ys =>
        rw [hx, hrest] at h
        cases h

namespace Header

theorem criticalName_eq_ok {h : Header} {v : Json} {name : String} :
    h.criticalName v = .ok name ↔
      v = .string name ∧ h.contains name = true ∧ name ∉ registeredNames := by
  cases v with
  | string text =>
    by_cases hr : text ∈ registeredNames
    · constructor
      · intro hname
        simp [criticalName, hr] at hname
      · rintro ⟨⟨⟩, -, hn⟩
        exact absurd hr hn
    · by_cases hc : h.contains text = true
      · constructor
        · intro hname
          simp only [criticalName, hr, hc, if_false, if_true, Except.ok.injEq] at hname
          subst hname
          exact ⟨rfl, hc, hr⟩
        · rintro ⟨⟨⟩, -, -⟩
          simp [criticalName, hr, hc]
      · constructor
        · intro hname
          simp [criticalName, hr, hc] at hname
        · rintro ⟨⟨⟩, hc', -⟩
          exact absurd hc' hc
  | _ => simp [criticalName]

theorem criticalName_malformed {h : Header} {v : Json} {err : TokenError}
    (herr : h.criticalName v = .error err) : err.kind = .format := by
  unfold criticalName at herr
  split at herr
  · split at herr
    · cases herr
      rfl
    · split at herr <;> cases herr
      rfl
  · cases herr
    rfl

theorem mapM_criticalName_eq_ok {h : Header} {vs : List Json} {names : List String} :
    vs.mapM h.criticalName = .ok names ↔
      vs = names.map .string ∧
        ∀ name ∈ names, h.contains name = true ∧ name ∉ registeredNames := by
  induction vs generalizing names with
  | nil => cases names <;> simp
  | cons v rest ih =>
    rw [List.mapM_cons]
    constructor
    · intro hnames
      obtain ⟨name, hname, hnames⟩ := bind_eq_ok.1 hnames
      obtain ⟨more, hmore, hnames⟩ := bind_eq_ok.1 hnames
      cases hnames
      obtain ⟨rfl, hgood⟩ := criticalName_eq_ok.1 hname
      obtain ⟨rfl, hrest⟩ := ih.1 hmore
      exact ⟨rfl, List.forall_mem_cons.2 ⟨hgood, hrest⟩⟩
    · rintro ⟨hv, hgood⟩
      cases names with
      | nil => cases hv
      | cons name more =>
        obtain ⟨rfl, rfl⟩ := List.cons.inj hv
        obtain ⟨hname, hmore⟩ := List.forall_mem_cons.1 hgood
        rw [criticalName_eq_ok.2 ⟨rfl, hname⟩, ih.2 ⟨rfl, hmore⟩]
        rfl

theorem critical_eq_ok {h : Header} {names : List String} :
    h.critical = .ok names ↔
      (h.get? "crit" = none ∧ names = [] ∨
        names ≠ [] ∧ h.get? "crit" = some (.array (names.map .string))) ∧
      ∀ name ∈ names, h.contains name = true ∧ name ∉ registeredNames := by
  unfold critical
  split
  · next hnone =>
    constructor
    · intro hnames
      cases hnames
      exact ⟨.inl ⟨hnone, rfl⟩, fun _ hmem => nomatch hmem⟩
    · rintro ⟨⟨-, rfl⟩ | ⟨-, hlist⟩, -⟩
      · rfl
      · rw [hnone] at hlist
        cases hlist
  · next v rest hsome =>
    rw [mapM_criticalName_eq_ok, hsome]
    cases names <;> simp
  · next w hother hsome =>
    rw [hsome]
    constructor
    · intro herr
      cases herr
    · rintro ⟨⟨⟨⟩, -⟩ | ⟨hne, hlist⟩, -⟩
      obtain ⟨name, more, rfl⟩ := List.exists_cons_of_ne_nil hne
      exact absurd (Option.some.inj hlist) (hother _ _)

theorem critical_malformed {h : Header} {err : TokenError} (herr : h.critical = .error err) :
    err.kind = .format := by
  unfold critical at herr
  split at herr
  · cases herr
  · obtain ⟨v, -, hv⟩ := mapM_eq_error herr
    exact criticalName_malformed hv
  · cases herr
    rfl

end Header

namespace Options

theorem checkCritical_eq_ok {o : Options} {h : Header} :
    o.checkCritical h = .ok () ↔ h.Heeds o.criticalHeaders := by
  constructor
  · intro hcheck v hv
    obtain ⟨names, hnames, hcheck⟩ := bind_eq_ok.1 hcheck
    obtain ⟨⟨hnone, -⟩ | ⟨hne, hlist⟩, hgood⟩ := Header.critical_eq_ok.1 hnames
    · rw [hv] at hnone
      cases hnone
    · have hknown : ∀ name ∈ names, name ∈ o.criticalHeaders := by
        cases hfind : names.find? (· ∉ o.criticalHeaders) with
        | some name =>
          rw [hfind] at hcheck
          cases hcheck
        | none => simpa using List.find?_eq_none.1 hfind
      rw [hv] at hlist
      exact ⟨names, hne, Option.some.inj hlist, fun name hmem => ⟨hknown name hmem, hgood name hmem⟩⟩
  · intro hheeds
    cases hv : h.get? "crit" with
    | none => simp [checkCritical, Header.critical, hv]
    | some v =>
      obtain ⟨names, hne, rfl, hgood⟩ := hheeds v hv
      have hnames : h.critical = .ok names :=
        Header.critical_eq_ok.2 ⟨.inr ⟨hne, hv⟩, fun name hmem => (hgood name hmem).2⟩
      have hfind : names.find? (· ∉ o.criticalHeaders) = none :=
        List.find?_eq_none.2 fun name hmem => by simpa using (hgood name hmem).1
      rw [checkCritical, hnames, ok_bind, hfind]
      rfl

theorem checkCritical_malformed {o : Options} {h : Header}
    (hheeds : ¬ h.Heeds o.criticalHeaders) :
    ∃ err, o.checkCritical h = .error err ∧ err.kind = .format := by
  cases hcheck : o.checkCritical h with
  | ok _ => exact absurd (checkCritical_eq_ok.1 hcheck) hheeds
  | error err =>
    refine ⟨err, rfl, ?_⟩
    cases hnames : h.critical with
    | error cause =>
      rw [checkCritical, hnames, error_bind, Except.error.injEq] at hcheck
      rw [← hcheck]
      exact Header.critical_malformed hnames
    | ok names =>
      rw [checkCritical, hnames, ok_bind] at hcheck
      split at hcheck <;> cases hcheck
      rfl

end Options

namespace Recipient

theorem readSigned_unheeded {r : Recipient} {p : SignedParts} {h : Header}
    (hheader : Header.ofSegment p.header = .ok h) (hheeds : ¬ h.Heeds r.options.criticalHeaders) :
    ∃ err, r.readSigned p = .error err ∧ err.kind = .format := by
  obtain ⟨err, hcheck, hkind⟩ := Options.checkCritical_malformed hheeds
  exact ⟨err, by simp [readSigned, Options.screenSigned, hheader, hcheck], hkind⟩

theorem readSealed_unheeded {r : Recipient} {p : SealedParts} {h : Header}
    (hheader : Header.ofSegment p.header = .ok h) (hheeds : ¬ h.Heeds r.options.criticalHeaders) :
    ∃ err, r.readSealed p = .error err ∧ err.kind = .format := by
  obtain ⟨err, hcheck, hkind⟩ := Options.checkCritical_malformed hheeds
  exact ⟨err, by simp [readSealed, Options.screenSealed, hheader, hcheck], hkind⟩

theorem decode_unheeded {r : Recipient} {token : String} {parsed : CompactToken} {h : Header}
    (hparse : CompactToken.parse token = .ok parsed)
    (hheader : Header.ofSegment parsed.header = .ok h)
    (hheeds : ¬ h.Heeds r.options.criticalHeaders) (e : Entropy) :
    ∃ err, (r.decode token e).1 = .error err ∧ err.kind = .format := by
  by_cases hlen : token.utf8ByteSize ≤ r.options.maxTokenLength
  · cases parsed with
    | signed p =>
      obtain ⟨err, hread, hkind⟩ := readSigned_unheeded hheader hheeds
      refine ⟨err, ?_, hkind⟩
      rw [decode_signed (CompactToken.parse_eq_signed.1 hparse) hlen, hread, error_bind]
    | encrypted p =>
      obtain ⟨err, hread, hkind⟩ := readSealed_unheeded hheader hheeds
      refine ⟨err, ?_, hkind⟩
      rw [decode_sealed (CompactToken.parse_eq_encrypted.1 hparse) hlen, hread,
        Draw.bind_error (Draw.ofExcept_error_bind _ _ e)]
  · rw [decode_tooLong (Nat.not_le.1 hlen)]
    exact ⟨_, rfl, rfl⟩

/-- Once an encrypted token that has one inside is open, only what is inside matters. -/
theorem decode_unwrapping {r : Recipient} {token : String} {p : SealedParts}
    {outer : DecodedToken} {e : Entropy}
    (hsplit : splitDots token = [p.header, p.encryptedKey, p.iv, p.ciphertext, p.tag])
    (houter : ((r.unwrapping false).decode token e).1 = .ok outer)
    (hnested : outer.header.isNested = true) :
    ((r.unwrapping true).decode token e).1 = (r.unwrapping true).openNested outer := by
  have hlen : token.utf8ByteSize ≤ r.options.maxTokenLength :=
    length_of_decode (r := r.unwrapping false) houter
  rw [decode_sealed (r := r.unwrapping false) hsplit hlen] at houter
  obtain ⟨t, e₁, ht, hleft⟩ := Draw.bind_eq_ok.1 (Prod.ext houter rfl)
  have hflat : (r.unwrapping false).unnest t = pure t := rfl
  rw [hflat] at hleft
  obtain rfl : t = outer := Except.ok.inj (Prod.mk.inj hleft).1
  have hopened : (Draw.ofExcept ((r.unwrapping true).readSealed p) >>=
      (r.unwrapping true).settleSealed) e = (.ok t, e₁) := ht
  rw [decode_sealed (r := r.unwrapping true) hsplit hlen, Draw.bind_ok hopened, unnest,
    if_pos ⟨rfl, hnested⟩, Draw.ofExcept_apply]

theorem decode_nested_unheeded {r : Recipient} {token text : String} {p : SealedParts}
    {q : SignedParts} {outer : DecodedToken} {h : Header} {e : Entropy}
    (hparse : CompactToken.parse token = .ok (.encrypted p))
    (houter : ((r.unwrapping false).decode token e).1 = .ok outer)
    (hnested : outer.header.isNested = true) (htext : Bytes.toText? outer.payload = some text)
    (hinner : CompactToken.parse text = .ok (.signed q))
    (hheader : Header.ofSegment q.header = .ok h)
    (hheeds : ¬ h.Heeds r.options.criticalHeaders) :
    ∃ err, ((r.unwrapping true).decode token e).1 = .error err ∧ err.kind = .format := by
  have hsplit := CompactToken.parse_eq_encrypted.1 hparse
  obtain ⟨err, hread, hkind⟩ := readSigned_unheeded (r := r.unwrapping true) hheader hheeds
  have hopen := openNested_of_text (r := r.unwrapping true) htext
    (CompactToken.parse_eq_signed.1 hinner)
  rw [hread, error_bind, map_error] at hopen
  exact ⟨err, by rw [decode_unwrapping hsplit houter hnested, hopen], hkind⟩

/-- Critical members are never passed over. Each header of a token that is accepted heeds them, that
of an encrypted token around it too. A token whose own header does not is malformed whatever the
algorithms, the keys and the random bytes are, and so is one that opens but has a token inside whose
header does not. -/
theorem critical_of_decode (r : Recipient) (token : String) :
    (∀ e t, (r.decode token e).1 = .ok t →
      t.header.Heeds r.options.criticalHeaders ∧
        ∀ outer, t.outerHeader = some outer → outer.Heeds r.options.criticalHeaders) ∧
    (∀ parsed h, CompactToken.parse token = .ok parsed →
      Header.ofSegment parsed.header = .ok h → ¬ h.Heeds r.options.criticalHeaders →
        ∀ e, ∃ err, (r.decode token e).1 = .error err ∧ err.kind = .format) ∧
    ∀ p e outer text q h, CompactToken.parse token = .ok (.encrypted p) →
      ((r.unwrapping false).decode token e).1 = .ok outer → outer.header.isNested = true →
      Bytes.toText? outer.payload = some text → CompactToken.parse text = .ok (.signed q) →
      Header.ofSegment q.header = .ok h → ¬ h.Heeds r.options.criticalHeaders →
        ∃ err, ((r.unwrapping true).decode token e).1 = .error err ∧ err.kind = .format := by
  refine ⟨fun e t ht => ?_, fun parsed h hparse hheader hheeds e => ?_, ?_⟩
  · cases accepts_of_decode ht with
    | signed _ hsigned =>
      exact ⟨Options.checkCritical_eq_ok.1 hsigned.reads.critical, fun _ hnone => nomatch hnone⟩
    | encrypted _ hopened _ =>
      exact ⟨Options.checkCritical_eq_ok.1 hopened.reads.critical, fun _ hnone => nomatch hnone⟩
    | nested _ hopened _ _ hsigned =>
      refine ⟨Options.checkCritical_eq_ok.1 hsigned.reads.critical, fun outer houter => ?_⟩
      cases houter
      exact Options.checkCritical_eq_ok.1 hopened.reads.critical
  · exact decode_unheeded hparse hheader hheeds e
  · intro p e outer text q h hparse houter hnested htext hinner hheader hheeds
    exact decode_nested_unheeded hparse houter hnested htext hinner hheader hheeds

/-- An unsecured token with a critical member that is understood, one with an empty list of them,
and that one inside an encrypted one. -/
theorem critical_of_decode_greeting :
    let heeding : Recipient :=
      ⟨{ plainIssuer.options with criticalHeaders := ["x"] }, .ok Algorithm.builtin, []⟩
    let r : Recipient := ⟨plainIssuer.options, .ok Algorithm.builtin, [sharedKey]⟩
    let heeded := "eyJhbGciOiJub25lIiwiY3JpdCI6WyJ4Il0sIngiOnRydWV9.aGk."
    let unheeded := "eyJhbGciOiJub25lIiwiY3JpdCI6W119.aGk."
    let around := sharedToken nestingHeader (Bytes.ofText unheeded) (Entropy.scrambled 0)
    let e := Entropy.scrambled 1
    (∃ t, (heeding.decode heeded e).1 = .ok t ∧ t.header.contains "crit" = true ∧
      t.header.Heeds ["x"]) ∧
    (∃ err, (r.decode unheeded e).1 = .error err ∧ err.kind = .format) ∧
    (∃ outer, ((r.unwrapping false).decode around e).1 = .ok outer) ∧
    ∃ err, ((r.unwrapping true).decode around e).1 = .error err ∧ err.kind = .format := by
  intro heeding r heeded unheeded around e
  let marked := ((Header.empty.insert "alg" (.string "none")).insert "crit"
    (.array [.string "x"])).insert "x" (.bool true)
  let c : SignedReading := ⟨marked, Algorithm.unsecured, Bytes.ofText "hi", []⟩
  have hreads : heeding.Reads ⟨"eyJhbGciOiJub25lIiwiY3JpdCI6WyJ4Il0sIngiOnRydWV9", "aGk", ""⟩ c :=
    { header := ⟨_, "\x7b\"alg\":\"none\",\"crit\":[\"x\"],\"x\":true\x7d",
        [("alg", .string "none"), ("crit", .array [.string "x"]), ("x", .bool true)], by cbv,
        Bytes.toText?_ofText _, by cbv, rfl⟩
      critical := rfl
      alg := rfl
      known := rfl
      secured := fun _ => rfl
      payload := by cbv
      signature := by cbv }
  have hheeded : (heeding.decode heeded e).1 = .ok ⟨marked, Bytes.ofText "hi", none, none⟩ := by
    rw [decode_signed (CompactToken.parse_eq_signed.1 (by cbv)) (by decide)]
    exact settled_eq_ok.2 ⟨c, hreads, SecretKey.empty, rfl, rfl⟩
  let blank := (Header.empty.insert "alg" (.string "none")).insert "crit" (.array [])
  have hblank : ¬ blank.Heeds r.options.criticalHeaders := by
    intro hheeds
    obtain ⟨names, hne, hlist, -⟩ := hheeds (.array []) rfl
    cases names with
    | nil => exact hne rfl
    | cons _ _ => cases hlist
  have hparse : CompactToken.parse unheeded =
      .ok (.signed ⟨"eyJhbGciOiJub25lIiwiY3JpdCI6W119", "aGk", ""⟩) := by cbv
  have hheader : Header.ofSegment "eyJhbGciOiJub25lIiwiY3JpdCI6W119" = .ok blank :=
    Header.ofSegment_eq_ok.2 ⟨_, "\x7b\"alg\":\"none\",\"crit\":[]\x7d",
      [("alg", .string "none"), ("crit", .array [])], by cbv, Bytes.toText?_ofText _, by cbv, rfl⟩
  have houter : ((r.unwrapping false).decode around e).1 =
      .ok ⟨nestingHeader, Bytes.ofText unheeded, some "e", none⟩ :=
    decode_nesting (by decide) [] (Entropy.scrambled 0) e
  let p := (nestingMaking (Bytes.ofText unheeded) (Entropy.scrambled 0)).parts
  have haround : CompactToken.parse around = .ok (.encrypted p) :=
    CompactToken.parse_eq_encrypted.2
      (splitDots_nesting (Bytes.ofText unheeded) (Entropy.scrambled 0))
  exact ⟨⟨_, hheeded, rfl, ((critical_of_decode heeding heeded).1 e _ hheeded).1⟩,
    (critical_of_decode r unheeded).2.1 _ blank hparse hheader hblank e, ⟨_, houter⟩,
    (critical_of_decode r around).2.2 p e _ unheeded _ blank haround houter isNested_nestingHeader
      (Bytes.toText?_ofText unheeded) hparse hheader hblank⟩

end Recipient

end TokenSeal
