import TokenSeal.Proofs.Base64
import TokenSeal.Proofs.Binding
import TokenSeal.Proofs.Hash
import TokenSeal.Proofs.Text
import TokenSeal.Token.Decode

/-! When a signed token is accepted. What is read of it before any key is tried does not depend on
the keys, and of what the keys decide only the id of the one found depends on their order. -/

namespace TokenSeal

/-! ### What is checked before any key -/

/-- The segment encodes a JSON object with the members of the header. -/
def Header.SpelledBy (h : Header) (segment : String) : Prop :=
  ∃ bytes text members, Base64Url.decode segment = .ok bytes ∧ Bytes.toText? bytes = some text ∧
    Json.parse? text = some (.object members) ∧ h = Header.empty.insertAll members

/-- A signed token apart from its keys. -/
structure SignedReading where
  header : Header
  algorithm : Algorithm
  payload : Bytes
  signature : Bytes

namespace Recipient

/-- Every check of a signed token that comes before the keys passes. -/
structure Reads (r : Recipient) (p : SignedParts) (c : SignedReading) : Prop where
  header : c.header.SpelledBy p.header
  critical : r.options.checkCritical c.header = .ok ()
  alg : c.header.get? "alg" = some (.string c.algorithm.code)
  known : r.known.find .signature c.algorithm.code = .ok c.algorithm
  secured : c.algorithm.code = "none" → r.options.allowUnsecured = true
  payload : Base64Url.decode p.payload = .ok c.payload
  signature : Base64Url.decode p.signature = .ok c.signature

/-- The part of reading that does not look at keys. -/
def readSigned (r : Recipient) (p : SignedParts) : Except TokenError SignedReading := do
  let t ← r.options.screenSigned p
  let a ← (r.known.find .signature t.alg).mapError .fault
  let signature ← bytesOf p.signature
  let payload ← bytesOf p.payload
  return ⟨t.header, a, payload, signature⟩

/-- The part of reading that only the keys decide. -/
def settleSigned (r : Recipient) (p : SignedParts) (c : SignedReading) :
    Except TokenError DecodedToken := do
  let keys ← r.keysFor c.algorithm c.algorithm.code c.header
  let k ← verifying c.algorithm (Bytes.ofText p.signingInput) c.signature none false keys
  return ⟨c.header, c.payload, k.id, none⟩

end Recipient

theorem Header.ofSegment_eq_ok {segment : String} {h : Header} :
    ofSegment segment = .ok h ↔ h.SpelledBy segment := by
  constructor
  · intro hs
    obtain ⟨bytes, hb, hs⟩ := bind_eq_ok.1 hs
    rw [mapError_eq_ok] at hb
    cases ht : Bytes.toText? bytes with
    | none => simp [ht] at hs
    | some text =>
      simp only [ht, ofText] at hs
      split at hs
      · cases hs
      · next members hm =>
        cases hs
        exact ⟨bytes, text, members, hb, ht, hm, rfl⟩
      · cases hs
  · rintro ⟨bytes, text, members, hb, ht, hm, rfl⟩
    simp [ofSegment, hb, ht, ofText, hm]

theorem Header.text?_eq_some {h : Header} {name text : String} :
    h.text? name = some text ↔ h.get? name = some (.string text) := by
  unfold text?
  cases h.get? name with
  | none => simp
  | some v => cases v <;> simp [Json.asString?]

theorem Options.requireText_eq_ok {name : String} {value : Option String} {text : String} :
    requireText name value = .ok text ↔ value = some text := by
  cases value <;> simp [requireText]

theorem Options.screenSigned_eq_ok {o : Options} {p : SignedParts} {t : ScreenedSigned} :
    o.screenSigned p = .ok t ↔
      t.parts = p ∧ t.header.SpelledBy p.header ∧ o.checkCritical t.header = .ok () ∧
        t.header.get? "alg" = some (.string t.alg) ∧
        (t.alg = "none" → o.allowUnsecured = true) := by
  constructor
  · intro h
    obtain ⟨hd, hh, h⟩ := bind_eq_ok.1 h
    obtain ⟨_, hc, h⟩ := bind_eq_ok.1 h
    obtain ⟨alg, ha, h⟩ := bind_eq_ok.1 h
    rw [requireText_eq_ok] at ha
    by_cases hn : alg = unsecuredCode ∧ !o.allowUnsecured
    · simp [hn] at h
    · simp only [hn, if_false, pure_eq_ok, Except.ok.injEq] at h
      subst h
      refine ⟨rfl, Header.ofSegment_eq_ok.1 hh, hc, Header.text?_eq_some.1 ha, fun hcode => ?_⟩
      simpa [unsecuredCode, show alg = "none" from hcode] using hn
  · rintro ⟨rfl, hh, hc, ha, hn⟩
    simpa [screenSigned, Header.ofSegment_eq_ok.2 hh, hc, Header.alg?, Header.text?_eq_some.2 ha,
      requireText, unsecuredCode] using hn

namespace Recipient

theorem readSigned_eq_ok {r : Recipient} {p : SignedParts} {c : SignedReading} :
    r.readSigned p = .ok c ↔ r.Reads p c := by
  constructor
  · intro h
    obtain ⟨t, ht, h⟩ := bind_eq_ok.1 h
    obtain ⟨a, ha, h⟩ := bind_eq_ok.1 h
    obtain ⟨signature, hs, h⟩ := bind_eq_ok.1 h
    obtain ⟨payload, hp, h⟩ := bind_eq_ok.1 h
    obtain ⟨-, hh, hc, halg, hn⟩ := Options.screenSigned_eq_ok.1 ht
    rw [mapError_eq_ok] at ha
    rw [bytesOf, mapError_eq_ok] at hs hp
    cases h
    have hcode : a.code = t.alg := (Known.find_eq_ok ha).2
    exact ⟨hh, hc, by rw [hcode, halg], by rw [hcode, ha], fun e => hn (hcode.symm.trans e), hp, hs⟩
  · intro h
    have hscreen : r.options.screenSigned p = .ok ⟨p, c.header, c.algorithm.code⟩ :=
      Options.screenSigned_eq_ok.2 ⟨rfl, h.header, h.critical, h.alg, h.secured⟩
    simp [readSigned, hscreen, h.known, bytesOf, h.signature, h.payload]

theorem openSigned_screenSigned (r : Recipient) (p : SignedParts) :
    (r.options.screenSigned p >>= r.openSigned) = r.readSigned p >>= r.settleSigned p := by
  cases ht : r.options.screenSigned p with
  | error e => simp [readSigned, ht]
  | ok t =>
    obtain ⟨rfl, -⟩ := Options.screenSigned_eq_ok.1 ht
    simp only [readSigned, ht, openSigned, ok_bind]
    cases ha : r.known.find .signature t.alg with
    | error e => simp
    | ok a =>
      simp only [mapError_ok, ok_bind]
      cases bytesOf t.parts.signature with
      | error e => simp
      | ok signature =>
        cases bytesOf t.parts.payload with
        | error e => simp
        | ok payload => simp [settleSigned, (Known.find_eq_ok ha).2]

/-! ### What the keys decide -/

/-- The keys that may have signed: live, of the algorithm's type, and with the id that the header
names if it names one. An algorithm without keys has the empty key. -/
def contenders (a : Algorithm) (h : Header) (keys : List SecretKey) : List SecretKey :=
  if a.keyType = .none then [SecretKey.empty]
  else
    keys.filter fun k => !k.isDisposed && decide (k.profile.effective = a.keyType) &&
      match h.get? "kid" with
      | some (.string id) => decide (k.id = some id)
      | _ => true

/-- A key of a legal size whose material verifies the signature. -/
def verifies (a : Algorithm) (input signature : Bytes) (k : SecretKey) : Bool :=
  a.isLegalSize k.profile.bits &&
    match a.method, k.material with
    | .signature m, some material => Signer.matchesMaterial m material input signature
    | _, _ => false

/-- The class of the failure when no key verifies. -/
def refusal (a : Algorithm) (keys : List SecretKey) : FaultKind :=
  if keys.isEmpty then .noMatchingKey
  else if keys.any fun k => a.isLegalSize k.profile.bits then .integrity
  else .invalidKeySize

/-- What does not tell which of several keys opened a token. -/
def outcome (x : Except TokenError DecodedToken) : Except FaultKind Bytes :=
  (x.map (·.payload)).mapError TokenError.kind

theorem candidates_eq_contenders (a : Algorithm) (h : Header) (keys : List SecretKey) :
    candidates a keys ⟨h.kid?, .decode⟩ = contenders a h keys := by
  by_cases ha : a.keyType = .none
  · simp [candidates, contenders, ha]
  · simp only [candidates, contenders, ha, if_false]
    refine List.filter_congr fun k _ => Bool.eq_iff_iff.2 ?_
    rw [isCandidate_decode, Header.kid?, Header.text?]
    cases h.get? "kid" with
    | none => simp
    | some v => cases v <;> simp [Json.asString?, and_assoc]

theorem contenders_perm (a : Algorithm) (h : Header) {keys keys' : List SecretKey}
    (hp : keys.Perm keys') : (contenders a h keys).Perm (contenders a h keys') := by
  rw [← candidates_eq_contenders, ← candidates_eq_contenders]
  exact candidates_perm hp _

theorem refusal_perm {a : Algorithm} {keys keys' : List SecretKey} (hp : keys.Perm keys') :
    refusal a keys = refusal a keys' := by
  simp only [refusal, hp.any_eq, hp.isEmpty_eq]

/-- One key of the search. A key of an illegal size is left out but remembered. -/
theorem verifying_cons {a : Algorithm} {m : SignatureMethod} {input signature : Bytes}
    {bindingFault : Option Fault} {attempted : Bool} {k : SecretKey} {rest : List SecretKey}
    (hm : a.method = .signature m) (hk : k.isDisposed = false)
    (ht : k.profile.effective = a.keyType) :
    verifying a input signature bindingFault attempted (k :: rest) =
      if a.isLegalSize k.profile.bits then
        if verifies a input signature k then .ok k
        else verifying a input signature bindingFault true rest
      else
        verifying a input signature (some (.invalidKeySize a.code k.profile.bits)) attempted
          rest := by
  obtain ⟨material, hmat, hread⟩ := SecretKey.read_of_live hk
  by_cases hs : a.isLegalSize k.profile.bits = true
  · by_cases hv : Signer.matchesMaterial m material input signature = true <;>
      simp [verifying, Signer.bind_of_live hm hk ht, hs, Signer.verify, hread, verifies, hm, hmat,
        hv]
  · simp [verifying, Signer.bind_of_live hm hk ht, hs]

/-- The first key that verifies is found, whatever was seen before it. -/
theorem verifying_of_find? {a : Algorithm} {m : SignatureMethod} {input signature : Bytes}
    {keys : List SecretKey} {k : SecretKey} (hm : a.method = .signature m)
    (hkeys : ∀ k ∈ keys, k.isDisposed = false ∧ k.profile.effective = a.keyType)
    (hk : keys.find? (verifies a input signature) = some k) (bindingFault : Option Fault)
    (attempted : Bool) : verifying a input signature bindingFault attempted keys = .ok k := by
  induction keys generalizing bindingFault attempted with
  | nil => cases hk
  | cons k' rest ih =>
    have ⟨hlive, ht⟩ := hkeys k' (by simp)
    have hrest := fun h => ih (fun k hk => hkeys k (List.mem_cons_of_mem _ hk)) h
    rw [verifying_cons hm hlive ht]
    by_cases hv : verifies a input signature k' = true
    · have hs : a.isLegalSize k'.profile.bits = true := (Bool.and_eq_true_iff.1 hv).1
      simp only [List.find?_cons, hv, Option.some.injEq] at hk
      rw [if_pos hs, if_pos hv, hk]
    · simp only [List.find?_cons, hv] at hk
      by_cases hs : a.isLegalSize k'.profile.bits = true <;> simp [hs, hv, hrest hk]

/-- Without a key that verifies, the failure is that of the sizes unless one was legal. -/
theorem verifying_of_none {a : Algorithm} {m : SignatureMethod} {input signature : Bytes}
    {keys : List SecretKey} (hm : a.method = .signature m)
    (hkeys : ∀ k ∈ keys, k.isDisposed = false ∧ k.profile.effective = a.keyType)
    (hnone : ∀ k ∈ keys, verifies a input signature k = false) (bindingFault : Option Fault)
    (attempted : Bool) :
    ∃ last, (last = bindingFault ∧ keys.all (fun k => a.isLegalSize k.profile.bits) = true ∨
        ∃ bits, last = some (.invalidKeySize a.code bits)) ∧
      verifying a input signature bindingFault attempted keys =
        .error (verdict last (attempted || keys.any fun k => a.isLegalSize k.profile.bits)) := by
  induction keys generalizing bindingFault attempted with
  | nil => exact ⟨bindingFault, .inl ⟨rfl, rfl⟩, by simp [verifying]⟩
  | cons k rest ih =>
    have ⟨hlive, ht⟩ := hkeys k (by simp)
    have hrest := ih (fun k hk => hkeys k (List.mem_cons_of_mem _ hk))
      (fun k hk => hnone k (List.mem_cons_of_mem _ hk))
    rw [verifying_cons hm hlive ht]
    by_cases hs : a.isLegalSize k.profile.bits = true
    · obtain ⟨last, hlast, hv⟩ := hrest bindingFault true
      refine ⟨last, ?_, by simp [hs, hnone k (by simp), hv]⟩
      simpa [hs] using hlast
    · obtain ⟨last, hlast, hv⟩ :=
        hrest (some (.invalidKeySize a.code k.profile.bits)) attempted
      refine ⟨last, .inr ?_, by simp [hs, hv]⟩
      obtain ⟨rfl, -⟩ | hbits := hlast
      · exact ⟨_, rfl⟩
      · exact hbits

theorem method_of_reads {r : Recipient} {p : SignedParts} {c : SignedReading}
    (hc : r.Reads p c) : ∃ m, c.algorithm.method = .signature m :=
  Algorithm.method_of_signature (Known.find_eq_ok hc.known).1

theorem contenders_live {a : Algorithm} {h : Header} {keys : List SecretKey} :
    ∀ k ∈ contenders a h keys, k.isDisposed = false ∧ k.profile.effective = a.keyType := by
  intro k hk
  rw [← candidates_eq_contenders] at hk
  exact effective_of_mem_candidates hk

theorem keysFor_eq (r : Recipient) (a : Algorithm) (code : String) (h : Header) :
    r.keysFor a code h =
      if (contenders a h r.keys).isEmpty then .error (.fault (.noMatchingKey code))
      else .ok (contenders a h r.keys) := by
  rw [keysFor, candidates_eq_contenders]
  cases contenders a h r.keys <;> simp

theorem settleSigned_of_find? {r : Recipient} {p : SignedParts} {c : SignedReading}
    {k : SecretKey} (hc : r.Reads p c)
    (hk : (contenders c.algorithm c.header r.keys).find?
      (verifies c.algorithm (Bytes.ofText p.signingInput) c.signature) = some k) :
    r.settleSigned p c = .ok ⟨c.header, c.payload, k.id, none⟩ := by
  obtain ⟨m, hm⟩ := method_of_reads hc
  have hne : (contenders c.algorithm c.header r.keys).isEmpty = false :=
    List.isEmpty_eq_false_iff.2 (List.ne_nil_of_mem (List.mem_of_find?_eq_some hk))
  simp [settleSigned, keysFor_eq, hne, verifying_of_find? hm contenders_live hk]

theorem settleSigned_of_none {r : Recipient} {p : SignedParts} {c : SignedReading}
    (hc : r.Reads p c)
    (hnone : ∀ k ∈ contenders c.algorithm c.header r.keys,
      verifies c.algorithm (Bytes.ofText p.signingInput) c.signature k = false) :
    ∃ err, r.settleSigned p c = .error err ∧
      err.kind = refusal c.algorithm (contenders c.algorithm c.header r.keys) := by
  obtain ⟨m, hm⟩ := method_of_reads hc
  obtain ⟨last, hlast, hv⟩ := verifying_of_none hm contenders_live hnone none false
  cases hempty : (contenders c.algorithm c.header r.keys).isEmpty with
  | true =>
    refine ⟨.fault (.noMatchingKey c.algorithm.code), ?_, ?_⟩
    · simp [settleSigned, keysFor_eq, hempty]
    · simp [refusal, hempty, TokenError.kind, Fault.kind]
  | false =>
    have hsettle : r.settleSigned p c =
        .error (verdict last ((contenders c.algorithm c.header r.keys).any
          fun k => c.algorithm.isLegalSize k.profile.bits)) := by
      simp [settleSigned, keysFor_eq, hempty, hv]
    refine ⟨_, hsettle, ?_⟩
    cases hany : (contenders c.algorithm c.header r.keys).any
        fun k => c.algorithm.isLegalSize k.profile.bits with
    | true => cases last <;> simp [verdict, refusal, hempty, hany, TokenError.kind]
    | false =>
      obtain ⟨-, hall⟩ | ⟨bits, rfl⟩ := hlast
      · obtain ⟨k, hk⟩ := List.exists_mem_of_ne_nil _ (List.isEmpty_eq_false_iff.1 hempty)
        exact absurd (List.all_eq_true.1 hall k hk) (List.any_eq_false.1 hany k hk)
      · simp [verdict, refusal, hempty, hany, TokenError.kind, Fault.kind]

/-- Reading a signed token of an acceptable length draws no randomness. -/
theorem decode_signed {r : Recipient} {token : String} {p : SignedParts}
    (hparts : splitDots token = [p.header, p.payload, p.signature])
    (hlen : token.utf8ByteSize ≤ r.options.maxTokenLength) (e : Entropy) :
    r.decode token e = (r.readSigned p >>= r.settleSigned p, e) := by
  have hparse : CompactToken.parse token = .ok (.signed p) := by
    simp [CompactToken.parse, hparts]
  rw [← openSigned_screenSigned, decode]
  cases ht : r.options.screenSigned p with
  | error err =>
    have hs : r.options.screen token = .error err := by
      simp [Options.screen, Nat.not_lt.2 hlen, hparse, ht]
    rw [hs]
    rfl
  | ok t =>
    have hs : r.options.screen token = .ok (.signed t) := by
      simp [Options.screen, Nat.not_lt.2 hlen, hparse, ht]
    rw [hs]
    rfl

theorem settled_eq_ok {r : Recipient} {p : SignedParts} {t : DecodedToken} :
    (r.readSigned p >>= r.settleSigned p) = .ok t ↔
      ∃ c, r.Reads p c ∧
        ∃ k, (contenders c.algorithm c.header r.keys).find?
            (verifies c.algorithm (Bytes.ofText p.signingInput) c.signature) = some k ∧
          t = ⟨c.header, c.payload, k.id, none⟩ := by
  constructor
  · intro h
    obtain ⟨c, hc, h⟩ := bind_eq_ok.1 h
    have hreads := readSigned_eq_ok.1 hc
    refine ⟨c, hreads, ?_⟩
    cases hk : (contenders c.algorithm c.header r.keys).find?
        (verifies c.algorithm (Bytes.ofText p.signingInput) c.signature) with
    | some k =>
      rw [settleSigned_of_find? hreads hk, Except.ok.injEq] at h
      exact ⟨k, rfl, h.symm⟩
    | none =>
      have hnone := fun k hk' => Bool.eq_false_iff.2 (List.find?_eq_none.1 hk k hk')
      obtain ⟨err, herr, -⟩ := settleSigned_of_none hreads hnone
      rw [herr] at h
      cases h
  · rintro ⟨c, hreads, k, hk, rfl⟩
    rw [readSigned_eq_ok.2 hreads, ok_bind, settleSigned_of_find? hreads hk]

theorem settled_perm {r : Recipient} {keys : List SecretKey} (hperm : r.keys.Perm keys)
    (p : SignedParts) :
    outcome ({ r with keys := keys }.readSigned p >>= { r with keys := keys }.settleSigned p) =
      outcome (r.readSigned p >>= r.settleSigned p) := by
  have hread : { r with keys := keys }.readSigned p = r.readSigned p := rfl
  rw [hread]
  cases hc : r.readSigned p with
  | error err => rfl
  | ok c =>
    have hreads := readSigned_eq_ok.1 hc
    have hreads' : { r with keys := keys }.Reads p c := readSigned_eq_ok.1 hc
    have hcont := contenders_perm c.algorithm c.header hperm
    have hany := hcont.any_eq (f := verifies c.algorithm (Bytes.ofText p.signingInput) c.signature)
    rw [ok_bind, ok_bind]
    cases hk : (contenders c.algorithm c.header r.keys).find?
        (verifies c.algorithm (Bytes.ofText p.signingInput) c.signature) with
    | some k =>
      rw [List.any_eq_true.2 ⟨k, List.mem_of_find?_eq_some hk, List.find?_some hk⟩] at hany
      have hfound := List.find?_isSome.2 (List.any_eq_true.1 hany.symm)
      obtain ⟨k', hk'⟩ := Option.isSome_iff_exists.1 hfound
      rw [settleSigned_of_find? hreads hk, settleSigned_of_find? hreads' hk']
      rfl
    | none =>
      have hnone := fun k hk' => Bool.eq_false_iff.2 (List.find?_eq_none.1 hk k hk')
      have hnone' : ∀ k ∈ contenders c.algorithm c.header keys,
          verifies c.algorithm (Bytes.ofText p.signingInput) c.signature k = false :=
        fun k hk' => hnone k (hcont.mem_iff.2 hk')
      obtain ⟨err, herr, hkind⟩ := settleSigned_of_none hreads hnone
      obtain ⟨err', herr', hkind'⟩ := settleSigned_of_none hreads' hnone'
      rw [herr, herr']
      simp only [outcome, map_error, mapError_error, hkind, hkind', refusal_perm hcont]

/-- A token of three segments is accepted exactly if its header is in order, it names a signature
algorithm that is known and let through, its segments decode, and one of the keys that may have
signed verifies it over all that stands before its last dot. The first such key is named. Without
one the failure tells whether there was no key, none of a legal size, or neither. So the order of
the keys never matters for success, payload or class of failure. -/
theorem decode_signed_verdict {r : Recipient} {token input header payload signature : String}
    (htoken : token = input ++ "." ++ signature) (hdot : '.' ∉ signature.toList)
    (hinput : splitDots input = [header, payload])
    (hlen : token.utf8ByteSize ≤ r.options.maxTokenLength) :
    (∀ e t, (r.decode token e).1 = .ok t ↔
      ∃ c, r.Reads ⟨header, payload, signature⟩ c ∧
        ∃ k, (contenders c.algorithm c.header r.keys).find?
            (verifies c.algorithm (Bytes.ofText input) c.signature) = some k ∧
          t = ⟨c.header, c.payload, k.id, none⟩) ∧
    (∀ e c, r.Reads ⟨header, payload, signature⟩ c →
      (∀ k ∈ contenders c.algorithm c.header r.keys,
        verifies c.algorithm (Bytes.ofText input) c.signature k = false) →
      ∃ err, (r.decode token e).1 = .error err ∧
        err.kind = refusal c.algorithm (contenders c.algorithm c.header r.keys)) ∧
    ∀ e keys, r.keys.Perm keys →
      outcome (({ r with keys := keys }).decode token e).1 = outcome (r.decode token e).1 := by
  have hparts : splitDots token = [header, payload, signature] := by
    rw [htoken, splitDots_append, hinput, splitDots_dotless hdot]
    rfl
  have hsigned : (⟨header, payload, signature⟩ : SignedParts).signingInput = input := by
    rw [← joinDots_splitDots input, hinput]
    simp [SignedParts.signingInput, joinDots]
  refine ⟨fun e t => ?_, fun e c hc hnone => ?_, fun e keys hperm => ?_⟩
  · rw [decode_signed (p := ⟨header, payload, signature⟩) hparts hlen e, settled_eq_ok, hsigned]
  · rw [← hsigned] at hnone
    rw [decode_signed (p := ⟨header, payload, signature⟩) hparts hlen e, readSigned_eq_ok.2 hc]
    exact settleSigned_of_none hc hnone
  · have hkeys := decode_signed (r := { r with keys := keys }) (p := ⟨header, payload, signature⟩)
      hparts hlen e
    rw [decode_signed (p := ⟨header, payload, signature⟩) hparts hlen e, hkeys]
    exact settled_perm hperm _

/-- A symmetric key of one byte again and again. -/
def repeatedKey (n : Nat) (b : UInt8) : SecretKey := .make none (.symmetric (List.replicate n b)) {}

/-- A short key cannot be bound and a key of ones does not verify, and the key of zeros behind them
is found. Without it the token is refused for what the longer key did, and without that one for the
size of the short key. -/
theorem decode_signed_verdict_greeting :
    let input := "eyJhbGciOiJIUzI1NiJ9.aGk"
    let tag := hmac .sha256 (List.replicate 32 0) (Bytes.ofText input)
    let token := input ++ "." ++ Base64Url.encode tag
    let answer := fun keys => (decode ⟨{}, .ok Algorithm.builtin, keys⟩ token (.scrambled 0)).1
    splitDots input = ["eyJhbGciOiJIUzI1NiJ9", "aGk"] ∧
      answer [repeatedKey 16 0, repeatedKey 32 1, repeatedKey 32 0] =
        .ok ⟨Header.empty.insert "alg" (.string "HS256"), Bytes.ofText "hi", none, none⟩ ∧
      outcome (answer [repeatedKey 32 0, repeatedKey 16 0, repeatedKey 32 1]) =
        .ok (Bytes.ofText "hi") ∧
      (∃ err, answer [repeatedKey 16 0, repeatedKey 32 1] = .error err ∧ err.kind = .integrity) ∧
      ∃ err, answer [repeatedKey 16 0] = .error err ∧ err.kind = .invalidKeySize := by
  intro input tag token answer
  have hinput : splitDots input = ["eyJhbGciOiJIUzI1NiJ9", "aGk"] := by cbv
  have hlength : token.utf8ByteSize ≤ 1024 * 1024 := by
    simp only [token, String.utf8ByteSize_append, Base64Url.utf8ByteSize_encode, tag, length_hmac]
    decide
  let c : SignedReading :=
    ⟨Header.empty.insert "alg" (.string "HS256"), Algorithm.hmac "HS256" .sha256,
      Bytes.ofText "hi", tag⟩
  have hreads : ∀ keys, Reads ⟨{}, .ok Algorithm.builtin, keys⟩
      ⟨"eyJhbGciOiJIUzI1NiJ9", "aGk", Base64Url.encode tag⟩ c := fun keys =>
    { header := ⟨Bytes.ofText "\x7b\"alg\":\"HS256\"\x7d", "\x7b\"alg\":\"HS256\"\x7d",
        [("alg", .string "HS256")], by decide +kernel, Bytes.toText?_ofText _, by cbv, rfl⟩
      critical := rfl
      alg := rfl
      known := rfl
      secured := fun h => absurd h (by decide)
      payload := by decide +kernel
      signature := Base64Url.decode_encode tag }
  have hverdict := fun keys => decode_signed_verdict (r := ⟨{}, .ok Algorithm.builtin, keys⟩)
    (rfl : token = input ++ "." ++ Base64Url.encode tag) (Base64Url.dot_notMem_encode tag) hinput
    hlength
  have hshort : verifies c.algorithm (Bytes.ofText input) tag (repeatedKey 16 0) = false := rfl
  have hones : verifies c.algorithm (Bytes.ofText input) tag (repeatedKey 32 1) = false := by
    have hne : hmac .sha256 (List.replicate 32 1) (Bytes.ofText input) ≠ tag := by decide +kernel
    exact decide_eq_false hne
  have hzeros : verifies c.algorithm (Bytes.ofText input) tag (repeatedKey 32 0) = true :=
    decide_eq_true (rfl : hmac .sha256 (List.replicate 32 0) (Bytes.ofText input) = tag)
  have hfound : ([repeatedKey 16 0, repeatedKey 32 1, repeatedKey 32 0].find?
      (verifies c.algorithm (Bytes.ofText input) tag)) = some (repeatedKey 32 0) := by
    rw [List.find?_cons_of_neg (by simp [hshort]), List.find?_cons_of_neg (by simp [hones]),
      List.find?_cons_of_pos hzeros]
  have hopened : answer [repeatedKey 16 0, repeatedKey 32 1, repeatedKey 32 0] =
      .ok ⟨c.header, c.payload, none, none⟩ :=
    ((hverdict [repeatedKey 16 0, repeatedKey 32 1, repeatedKey 32 0]).1 _ _).2
      ⟨c, hreads _, repeatedKey 32 0, hfound, rfl⟩
  refine ⟨hinput, hopened, ?_, ?_, ?_⟩
  · have hperm : [repeatedKey 16 0, repeatedKey 32 1, repeatedKey 32 0].Perm
        [repeatedKey 32 0, repeatedKey 16 0, repeatedKey 32 1] :=
      List.perm_append_singleton (repeatedKey 32 0) [repeatedKey 16 0, repeatedKey 32 1]
    exact ((hverdict _).2.2 _ _ hperm).trans (congrArg outcome hopened)
  · refine (hverdict [repeatedKey 16 0, repeatedKey 32 1]).2.1 _ c (hreads _) fun k hk => ?_
    have hk' : k ∈ [repeatedKey 16 0, repeatedKey 32 1] := hk
    simp only [List.mem_cons, List.not_mem_nil, or_false] at hk'
    obtain rfl | rfl := hk'
    · exact hshort
    · exact hones
  · refine (hverdict [repeatedKey 16 0]).2.1 _ c (hreads _) fun k hk => ?_
    obtain rfl := List.mem_singleton.1 (hk : k ∈ [repeatedKey 16 0])
    exact hshort

end Recipient

end TokenSeal
