import TokenSeal.Key.Record
import TokenSeal.Proofs.Binding
import TokenSeal.Proofs.Ownership
import TokenSeal.Proofs.SignedRoundTrip
import TokenSeal.Vault

/-! A key that was disposed of is of no use. Nothing can be read of it and nothing can be bound to
it, what was bound to it before does nothing but fail, and no search for keys comes upon it. All of
this holds from the moment it was disposed of to the end of every run. -/

namespace TokenSeal

/-! ### The key itself -/

/-- Nothing can be read of the key, nothing can be bound to it, it is no candidate for anything, and
there is nothing left to dispose of. -/
structure SecretKey.Spent (k : SecretKey) : Prop where
  keyId : k.keyId = .error (.disposed .secretKey)
  hints : k.hints = .error (.disposed .secretKey)
  keyType : k.keyType = .error (.disposed .secretKey)
  effectiveType : k.effectiveType = .error (.disposed .secretKey)
  sizeBits : k.sizeBits = .error (.disposed .secretKey)
  isPrivate : k.isPrivate = .error (.disposed .secretKey)
  toJwk : ∀ withPrivate, k.toJwk withPrivate = .error (.disposed .secretKey)
  record : SecretRecord.ofKey k = .error (.disposed .secretKey)
  signer : ∀ a : Algorithm, a.family = .signature →
    Signer.bind k a = .error (.disposed .secretKey)
  sealer : ∀ a : Algorithm, a.family = .contentEncryption →
    Sealer.bind k a = .error (.disposed .secretKey)
  wrapper : ∀ limits (a : Algorithm), a.family = .keyManagement →
    KeyWrapper.bind limits k a = .error (.disposed .secretKey)
  compressor : ∀ limit (a : Algorithm), a.family = .compression →
    Compressor.bind limit k a = .error (.disposed .secretKey)
  candidate : ∀ a s, isCandidate a s k = false
  dispose : k.dispose = k

section Key

variable {k : SecretKey}

theorem SecretKey.read_of_isDisposed (h : k.isDisposed = true) :
    k.read = .error (.disposed .secretKey) := by
  cases hm : k.material with
  | none => simp [read, hm]
  | some m => simp [isDisposed, hm] at h

theorem SecretKey.ask_of_isDisposed {α : Type} (h : k.isDisposed = true)
    (property : SecretKey → α) : k.ask property = .error (.disposed .secretKey) := by
  rw [ask, read_of_isDisposed h, map_error]

theorem checkBinding_of_isDisposed {family : Family} {a : Algorithm} (hf : a.family = family)
    (h : k.isDisposed = true) : checkBinding family k a = .error (.disposed .secretKey) := by
  simp [checkBinding, hf, SecretKey.effectiveType, SecretKey.ask_of_isDisposed h]

theorem SecretKey.spent_of_isDisposed (h : k.isDisposed = true) : k.Spent where
  keyId := ask_of_isDisposed h _
  hints := ask_of_isDisposed h _
  keyType := ask_of_isDisposed h _
  effectiveType := ask_of_isDisposed h _
  sizeBits := ask_of_isDisposed h _
  isPrivate := by rw [isPrivate, read_of_isDisposed h, map_error]
  toJwk withPrivate := by simp [SecretKey.toJwk, read_of_isDisposed h]
  record := by simp [SecretRecord.ofKey, read_of_isDisposed h]
  signer a ha := by simp [Signer.bind, checkBinding_of_isDisposed ha h]
  sealer a ha := by simp [Sealer.bind, checkBinding_of_isDisposed ha h]
  wrapper limits a ha := by simp [KeyWrapper.bind, checkBinding_of_isDisposed ha h]
  compressor limit a ha := by simp [Compressor.bind, checkBinding_of_isDisposed ha h]
  candidate a s := by simp [isCandidate, h]
  dispose := Supply.dispose_of_isDisposed k h

end Key

/-! ### What was bound to it -/

/-- Signing and verifying fail. Signing into a buffer that is too short still tells that it is. -/
structure Signer.Spent (s : Signer) : Prop where
  sign : ∀ data e, s.sign data e = (.error (.disposed .secretKey), e)
  signInto : ∀ data (buffer : Bytes) e, s.signInto data buffer e =
    if buffer.length < s.size then (.ok (none, buffer), e)
    else (.error (.disposed .secretKey), e)
  verify : ∀ data signature, s.verify data signature = .error (.disposed .secretKey)

/-- Nothing is sealed and nothing is opened. An IV of the wrong length is told before. -/
structure Sealer.Spent (s : Sealer) : Prop where
  sealWith : ∀ iv text aad, s.sealWith iv text aad =
    .error (if iv.length = s.cipher.ivLength then .disposed .secretKey
      else .encryption (.ivLength s.cipher.ivLength))
  encrypt : ∀ text aad e, (s.encrypt text aad e).1 = .error (.disposed .secretKey)
  decrypt : ∀ c aad, s.decrypt c aad = .error (.disposed .secretKey)
  decryptInto : ∀ c aad buffer,
    s.decryptInto c aad buffer = (.error (.disposed .secretKey), buffer)

/-- No content key is wrapped and none comes back. A content encryption that is none is told
before, and so is a content key that does not have its length. -/
structure KeyWrapper.Spent (w : KeyWrapper) : Prop where
  wrapNew : ∀ enc e,
    (w.wrapNew enc e).1 = (contentKeyLength enc).bind fun _ => .error (.disposed .secretKey)
  wrap : ∀ contentKey enc e, (w.wrap contentKey enc e).1 = (contentKeyLength enc).bind fun length =>
    .error (if contentKey.length = length then .disposed .secretKey
      else .invalidKeySize enc.code (8 * contentKey.length))
  unwrap : ∀ encrypted parameters enc e, (w.unwrap encrypted parameters enc e).1 =
    (contentKeyLength enc).bind fun _ => .error (.disposed .secretKey)

theorem Signer.spent_of_isDisposed {s : Signer} (h : s.key.isDisposed = true) : s.Spent := by
  have hread := SecretKey.read_of_isDisposed h
  have hsign : ∀ data e, s.sign data e = (.error (.disposed .secretKey), e) := by
    intro data e
    rw [sign, hread]
    exact Draw.ofExcept_error_bind _ _ _
  refine ⟨hsign, fun data buffer e => ?_, fun data signature => ?_⟩
  · rw [signInto]
    split
    · rfl
    · exact Draw.bind_error (hsign data e)
  · rw [verify, hread, map_error]

theorem Sealer.spent_of_isDisposed {s : Sealer} (h : s.key.isDisposed = true) : s.Spent := by
  have hread := SecretKey.read_of_isDisposed h
  have hinto : ∀ c aad buffer,
      s.decryptInto c aad buffer = (.error (.disposed .secretKey), buffer) := by
    intro c aad buffer
    simp [decryptInto, openFor, hread]
  have hseal : ∀ iv text aad, s.sealWith iv text aad =
      .error (if iv.length = s.cipher.ivLength then .disposed .secretKey
        else .encryption (.ivLength s.cipher.ivLength)) := by
    intro iv text aad
    by_cases hiv : iv.length = s.cipher.ivLength <;> simp [sealWith, hread, hiv]
  refine ⟨hseal, fun text aad e => ?_, fun c aad => ?_, hinto⟩
  · rw [encrypt, Draw.bind_ok (Draw.bytes_apply _ _), Draw.ofExcept_apply, hseal,
      if_pos (by simp [Entropy.take])]
  · simp [decrypt, hinto]

theorem KeyWrapper.spent_of_isDisposed {w : KeyWrapper} (h : w.key.isDisposed = true) :
    w.Spent := by
  have hread := SecretKey.read_of_isDisposed h
  have hwrap : ∀ (contentKey : Bytes) enc e, (w.wrap contentKey enc e).1 =
      (contentKeyLength enc).bind fun length =>
        .error (if contentKey.length = length then .disposed .secretKey
          else .invalidKeySize enc.code (8 * contentKey.length)) := by
    intro contentKey enc e
    cases hlength : contentKeyLength enc with
    | error err => simp [wrap, hlength, Draw.ofExcept_error_bind, Except.bind]
    | ok length =>
      by_cases hkey : contentKey.length = length <;>
        simp [wrap, hlength, hkey, hread, Draw.bind_apply, Except.bind]
  refine ⟨fun enc e => ?_, hwrap, fun encrypted parameters enc e => ?_⟩
  · cases hlength : contentKeyLength enc with
    | error err => simp [wrapNew, hlength, Draw.ofExcept_error_bind, Except.bind]
    | ok length =>
      have hdrawn : ((Draw.bytes length >>= fun contentKey => w.wrap contentKey enc) e).1 =
          .error (.disposed .secretKey) := by
        rw [Draw.bind_ok (Draw.bytes_apply _ _), hwrap, hlength]
        simp [Except.bind, Entropy.take]
      rw [wrapNew, hlength, Draw.ofExcept_ok_bind]
      -- What shares or agrees on a key reads its own first; the others draw one and wrap it.
      rcases w.method with _ | _ | _ | (_ | bits) | _ | _
      case direct => simp [shareDirectly, hread, Except.bind]
      case agreement.none => simp [agreeDirectly, hread, Draw.bind_apply, Except.bind]
      all_goals exact hdrawn
  · cases hlength : contentKeyLength enc with
    | error err => simp [unwrap, hlength, Draw.ofExcept_error_bind, Except.bind]
    | ok length => simp [unwrap, hlength, hread, Draw.bind_apply, Except.bind]

/-! ### Searches among keys -/

namespace Recipient

/-- Reading a token asks for keys only by their candidates. -/
theorem decode_congr {o : Options} {known : Known} {keys keys' : List SecretKey}
    (h : ∀ a kid, candidates a keys ⟨kid, .decode⟩ = candidates a keys' ⟨kid, .decode⟩)
    (token : String) : decode ⟨o, known, keys⟩ token = decode ⟨o, known, keys'⟩ token := by
  have hkeys : keysFor ⟨o, known, keys⟩ = keysFor ⟨o, known, keys'⟩ := by
    funext a code header
    rw [keysFor, keysFor, h]
  have hsigned : openSigned ⟨o, known, keys⟩ = openSigned ⟨o, known, keys'⟩ := by
    funext t
    rw [openSigned, openSigned, hkeys]
  have hsealed : openSealed ⟨o, known, keys⟩ = openSealed ⟨o, known, keys'⟩ := by
    funext t
    rw [openSealed, openSealed, hkeys]
    rfl
  have hnested : openNested ⟨o, known, keys⟩ = openNested ⟨o, known, keys'⟩ := by
    funext outer
    rw [openNested, openNested, hsigned]
  have hscreened : openScreened ⟨o, known, keys⟩ = openScreened ⟨o, known, keys'⟩ := by
    funext t
    cases t with
    | signed t => rw [openScreened, openScreened, hsigned]
    | encrypted t => rw [openScreened, openScreened, hsealed, hnested]
  rw [decode, decode, hscreened]

end Recipient

/-- A key that is no candidate may as well be left out. -/
theorem candidates_lookup_filter {s : Supply SecretKey} {i : ItemId} {k : SecretKey}
    (hk : s.items[i]? = some k) {a : Algorithm} {sel : KeySelector}
    (hnot : isCandidate a sel k = false) (ids : List ItemId) :
    candidates a (s.lookup (ids.filter (· ≠ i))) sel = candidates a (s.lookup ids) sel := by
  by_cases ha : a.keyType = .none
  · rw [candidates, candidates, if_pos ha, if_pos ha]
  · rw [candidates, candidates, if_neg ha, if_neg ha]
    induction ids with
    | nil => rfl
    | cons j rest ih =>
      by_cases hj : j = i
      · simpa [Supply.lookup, hj, hk, hnot] using ih
      · cases hitem : s.items[j]? with
        | none => simpa [Supply.lookup, hj, hitem] using ih
        | some other =>
          simp only [Supply.lookup, ne_eq, hj, not_false_eq_true, decide_true, List.filter_cons_of_pos,
            List.filterMap_cons, hitem, List.filter_cons] at ih ⊢
          rw [ih]

/-! ### Runs -/

/-- What a key can be bound into. -/
inductive Tool where
  | signer (s : Signer)
  | sealer (s : Sealer)
  | wrapper (w : KeyWrapper)

/-- What to bind a key to, and as what. -/
inductive Commission where
  | signer (a : Algorithm)
  | sealer (a : Algorithm)
  | wrapper (limits : PasswordLimits) (party : PartyInfo) (a : Algorithm)

namespace Tool

def make (k : SecretKey) : Commission → Except Fault Tool
  | .signer a => (Signer.bind k a).map .signer
  | .sealer a => (Sealer.bind k a).map .sealer
  | .wrapper limits party a =>
    (KeyWrapper.bind limits k a).map fun w => .wrapper (w.withParty party)

/-- The tool once `k` is what has become of its key. -/
def withKey (k : SecretKey) : Tool → Tool
  | .signer s => .signer { s with key := k }
  | .sealer s => .sealer { s with key := k }
  | .wrapper w => .wrapper { w with key := k }

/-- The tool does nothing but fail. -/
def Spent : Tool → Prop
  | .signer s => s.Spent
  | .sealer s => s.Spent
  | .wrapper w => w.Spent

theorem spent_withKey {k : SecretKey} (h : k.isDisposed = true) (t : Tool) :
    (t.withKey k).Spent := by
  cases t with
  | signer s => exact Signer.spent_of_isDisposed (s := { s with key := k }) h
  | sealer s => exact Sealer.spent_of_isDisposed (s := { s with key := k }) h
  | wrapper w => exact KeyWrapper.spent_of_isDisposed (w := { w with key := k }) h

end Tool

/-- Keys, and what they were bound into. Tools share their keys with everybody: what becomes of a
key becomes of it in the tools too. -/
structure Workshop where
  keys : Supply SecretKey := {}
  tools : List (ItemId × Tool) := []

namespace Workshop

/-- What changes a workshop. Keys are disposed of by changes of their supply; using a tool changes
nothing. -/
inductive Action where
  | addKey (k : SecretKey)
  | change (a : Supply.Action SecretKey)
  | make (i : ItemId) (c : Commission)

def perform (w : Workshop) : Action → Workshop
  | .addKey k => { w with keys := (w.keys.addItem k).2 }
  | .change a => { w with keys := w.keys.perform a }
  | .make i c =>
    match (w.keys.items[i]?).map (Tool.make · c) with
    | some (.ok t) => { w with tools := w.tools ++ [(i, t)] }
    | _ => w

def run (actions : List Action) : Workshop := actions.foldl perform {}

/-- The tools that the key `i` was bound into, as they are now. -/
def toolsOf (w : Workshop) (i : ItemId) : List Tool :=
  (w.keys.lookup [i]).flatMap fun k => (w.tools.filter (·.1 = i)).map (·.2.withKey k)

variable {w : Workshop} {i : ItemId} {k : SecretKey}

theorem spent_of_mem_toolsOf (hk : w.keys.items[i]? = some k) (hgone : k.isDisposed = true) :
    ∀ t ∈ w.toolsOf i, t.Spent := by
  intro t ht
  simp only [toolsOf, Supply.lookup, List.filterMap_cons, hk, List.filterMap_nil,
    List.flatMap_cons, List.flatMap_nil, List.append_nil, List.mem_map] at ht
  obtain ⟨made, -, rfl⟩ := ht
  exact made.2.spent_withKey hgone

/-- Nothing happens to a key but that it is disposed of. -/
theorem items_perform (hk : w.keys.items[i]? = some k) (a : Action) :
    ∃ n : Nat, (w.perform a).keys.items[i]? = some (Disposable.dispose^[n] k) := by
  cases a with
  | addKey other =>
    have hlt : i < w.keys.items.length := (List.getElem?_eq_some_iff.1 hk).1
    exact ⟨0, (List.getElem?_append_left hlt).trans hk⟩
  | change a =>
    obtain ⟨n, hn⟩ := (w.keys.perform_effect a).ages i
    exact ⟨n, by rw [perform, hn, hk, Option.map_some]⟩
  | make j c =>
    refine ⟨0, ?_⟩
    rw [perform]
    split <;> exact hk

theorem items_of_foldl (hk : w.keys.items[i]? = some k) (hgone : k.isDisposed = true)
    (later : List Action) : (later.foldl perform w).keys.items[i]? = some k := by
  induction later generalizing w with
  | nil => exact hk
  | cons a rest ih =>
    obtain ⟨n, hn⟩ := items_perform hk a
    rw [Function.iterate_fixed (Supply.dispose_of_isDisposed k hgone)] at hn
    exact ih hn

theorem items_of_releases (hk : w.keys.items[i]? = some k) {a : Supply.Action SecretKey}
    (ha : w.keys.Releases i a) : (w.perform (.change a)).keys.items[i]? = some k.dispose := by
  obtain ⟨n, hn⟩ := (w.keys.perform_takes a).taken i ha
  rw [perform, hn, hk, Option.map_some,
    @Supply.iterate_dispose _ _ SecretKey.isDisposed (fun _ => rfl) Supply.dispose_of_isDisposed]
  rfl

theorem perform_disposeItem (hk : w.keys.items[i]? = some k) (hgone : k.isDisposed = true) :
    w.perform (.change (.disposeItem i)) = w := by
  have hitems : w.keys.items.modify i Disposable.dispose = w.keys.items := by
    refine List.ext_getElem? fun j => ?_
    by_cases hj : i = j
    · subst hj
      simp [hk, Supply.dispose_of_isDisposed k hgone]
    · simp [hj]
  simp [perform, Supply.perform, Supply.disposeItem, hitems]

/-- Nothing is computed with a key that was disposed of, whatever was bound to it before and
whatever is done afterwards: nothing can be read of it or bound to it, all tools that it was bound
into fail, and searching keys and reading tokens come out as if it were not among the keys. It can
be disposed of again, but that changes nothing. -/
theorem spent_of_run {before : List Action} {a : Supply.Action SecretKey}
    (hk : (run before).keys.items[i]? = some k) (ha : (run before).keys.Releases i a)
    (after : List Action) :
    let w := run (before ++ .change a :: after)
    w.keys.items[i]? = some k.dispose ∧ k.dispose.Spent ∧ (∀ t ∈ w.toolsOf i, t.Spent) ∧
      (∀ ids, let others := ids.filter (· ≠ i)
        (∀ a s, candidates a (w.keys.lookup ids) s = candidates a (w.keys.lookup others) s ∧
          selectKey a (w.keys.lookup ids) s = selectKey a (w.keys.lookup others) s) ∧
        ∀ o known token, Recipient.decode ⟨o, known, w.keys.lookup ids⟩ token =
          Recipient.decode ⟨o, known, w.keys.lookup others⟩ token) ∧
      w.perform (.change (.disposeItem i)) = w := by
  intro w
  have hw : w.keys.items[i]? = some k.dispose := by
    have hrun : w = after.foldl perform ((run before).perform (.change a)) := by
      simp [w, run, List.foldl_append]
    rw [hrun]
    exact items_of_foldl (items_of_releases hk ha) rfl after
  have hspent : k.dispose.Spent := SecretKey.spent_of_isDisposed rfl
  refine ⟨hw, hspent, spent_of_mem_toolsOf hw rfl, ?_, perform_disposeItem hw rfl⟩
  intro ids others
  have hcandidates : ∀ a s, candidates a (w.keys.lookup ids) s =
      candidates a (w.keys.lookup others) s := fun a s =>
    (candidates_lookup_filter hw (hspent.candidate a s) ids).symm
  refine ⟨fun a s => ⟨hcandidates a s, ?_⟩, fun o known token =>
    Recipient.decode_congr (fun a kid => hcandidates a ⟨kid, .decode⟩) token⟩
  rw [selectKey, selectKey, hcandidates]

section Greeting

open Recipient

/-- A signer for greetings is made, and another key is there beside its own. -/
def greetingActions : List Action :=
  [.addKey (zeroKey "a"), .addKey (zeroKey "b"), .make 0 (.signer (.hmac "HS256" .sha256))]

theorem make_greeting :
    Tool.make (zeroKey "a") (.signer (.hmac "HS256" .sha256)) = .ok (.signer greetingSigner) := rfl

theorem run_greeting : run greetingActions =
    ⟨{ items := [zeroKey "a", zeroKey "b"] }, [(0, .signer greetingSigner)]⟩ := by
  simp [run, greetingActions, perform, Supply.addItem, make_greeting]

/-- The signer signs until its key is disposed of, and then no more. A token is read with the two
keys as it is with the other one alone. -/
theorem spent_of_run_greeting :
    let w := run (greetingActions ++ [.change (.disposeItem 0)])
    (run greetingActions).keys.items[0]? = some (zeroKey "a") ∧
      (run greetingActions).keys.Releases 0 (.disposeItem 0) ∧
      (run greetingActions).toolsOf 0 = [.signer greetingSigner] ∧
      (∀ e, greetingSigner.sign (Bytes.ofText greetingInput) e = (.ok greetingTag, e)) ∧
      (∃ s, w.toolsOf 0 = [.signer s] ∧
        ∀ data e, s.sign data e = (.error (.disposed .secretKey), e)) ∧
      ∀ o known token, decode ⟨o, known, w.keys.lookup [0, 1]⟩ token =
        decode ⟨o, known, w.keys.lookup [1]⟩ token := by
  intro w
  have hk : (run greetingActions).keys.items[0]? = some (zeroKey "a") := by rw [run_greeting]; rfl
  have hw : w = ⟨{ items := [(zeroKey "a").dispose, zeroKey "b"] }, [(0, .signer greetingSigner)]⟩ := by
    simp only [w, run, List.foldl_append]
    rw [← run, run_greeting]
    rfl
  have htools : w.toolsOf 0 = [(Tool.signer greetingSigner).withKey (zeroKey "a").dispose] := by
    rw [hw]
    rfl
  obtain ⟨-, -, hspent, hothers, -⟩ := spent_of_run hk .direct []
  have hsigner : ((Tool.signer greetingSigner).withKey (zeroKey "a").dispose).Spent :=
    hspent _ (htools ▸ List.mem_singleton_self _)
  refine ⟨hk, .direct, by rw [run_greeting]; rfl, fun e => rfl, ⟨_, htools, hsigner.sign⟩, ?_⟩
  have hleft : [0, 1].filter (· ≠ (0 : ItemId)) = [1] := by decide
  rw [← hleft]
  exact (hothers [0, 1]).2

end Greeting

end Workshop

end TokenSeal
