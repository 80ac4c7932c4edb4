import TokenSeal.Proofs.Draw
import TokenSeal.Proofs.Supply
import TokenSeal.Vault

/-! Looking something up may merge a stale collection anew, but what is read of any collection is
the same afterwards. So a vault that makes and reads tokens, one after another, does what one issuer
and one recipient do that were fixed at the start, with the random stream handed on. -/

namespace TokenSeal

namespace Supply

variable {α : Type} {s s' : Supply α}

theorem merge_congr (hitems : s'.items = s.items) (hsources : s'.sources = s.sources)
    (members : List Membership) (naming : Option (α → String)) :
    s'.merge members naming = s.merge members naming := by
  simp only [merge, sourceItems, hitems, hsources]

theorem read_congr {i : CollectionId} (hitems : s'.items = s.items)
    (hsources : s'.sources = s.sources) (hcollection : s'.collections[i]? = s.collections[i]?) :
    (s'.read i).1 = (s.read i).1 := by
  unfold read
  rw [hcollection]
  cases s.collections[i]? with
  | none => rfl
  | some c =>
    simp only [merge_congr hitems hsources]
    by_cases hdisposed : c.disposed = true
    · simp [hdisposed]
    · by_cases hstale : c.stale = true
      · cases s.merge c.members c.naming <;> simp [hdisposed, hstale]
      · simp [hdisposed, hstale]

theorem read_of_fresh {i : CollectionId} {c : Collection α} (hc : s.collections[i]? = some c)
    (hdisposed : c.disposed = false) (hstale : c.stale = false) : (s.read i).1 = .ok c.items := by
  simp [read, hc, hdisposed, hstale]

/-- Reading a collection does not change what is read of any. -/
theorem read_read (s : Supply α) (id i : CollectionId) :
    ((s.read id).2.read i).1 = (s.read i).1 := by
  obtain ⟨hitems, hsources⟩ := s.read_frame id
  by_cases hi : i = id
  · subst hi
    cases hread : (s.read i).1 with
    | error e => rw [read_of_error hread, hread]
    | ok ids =>
      obtain ⟨c, hc, rfl, hstale, hdisposed⟩ := read_eq_ok hread
      exact read_of_fresh hc hdisposed hstale
  · refine read_congr hitems hsources ?_
    obtain hsame | ⟨c, ids, -, -, -, hread⟩ := s.read_cases id
    · rw [hsame]
    · rw [hread]
      exact List.getElem?_set_ne (Ne.symm hi)

theorem lookup_read (s : Supply α) (id : CollectionId) : (s.read id).2.lookup = s.lookup := by
  funext ids
  rw [lookup, lookup, (s.read_frame id).1]

theorem algorithms_eq (s : Supply Algorithm) (id : CollectionId) :
    (s.algorithms id).1 = (s.read id).1.map s.lookup := by
  rw [← lookup_read s id]
  rfl

end Supply

namespace Vault

/-- Everything that can be looked up is found alike, and compressed alike. -/
structure Alike (v v' : Vault) : Prop where
  known : v'.known = v.known
  rings : v'.rings = v.rings
  deflate : v'.deflate = v.deflate

/-- The vaults differ at most in which collections are stale. -/
structure Same (v v' : Vault) : Prop extends Alike v v' where
  entropy : v'.entropy = v.entropy

theorem Alike.refl (v : Vault) : v.Alike v := ⟨rfl, rfl, rfl⟩

theorem Alike.trans {v v' v'' : Vault} (h : v.Alike v') (h' : v'.Alike v'') : v.Alike v'' :=
  ⟨h'.known.trans h.known, h'.rings.trans h.rings, h'.deflate.trans h.deflate⟩

theorem Alike.issuer {v v' : Vault} (h : v.Alike v') : v'.issuer = v.issuer := by
  funext p now
  rw [Vault.issuer, Vault.issuer, h.known, h.rings, h.deflate]

theorem Same.refl (v : Vault) : v.Same v := ⟨.refl v, rfl⟩

/-! ### Looking things up -/

theorem afterRegistry_same (v : Vault) : (r : Registry) → v.Same (v.afterRegistry r)
  | .builtin => .refl v
  | .collection id => by
    refine ⟨⟨funext fun r => ?_, rfl, rfl⟩, rfl⟩
    cases r with
    | builtin => rfl
    | collection i =>
      change ((v.algorithms.read id).2.algorithms i).1 = (v.algorithms.algorithms i).1
      rw [Supply.algorithms_eq, Supply.algorithms_eq, Supply.read_read, Supply.lookup_read]

theorem afterRing_same (v : Vault) (id : CollectionId) : v.Same (v.afterRing id) := by
  refine ⟨⟨funext fun r => by cases r <;> rfl, funext fun i => ?_, rfl⟩, rfl⟩
  change ((v.keys.read id).2.read i).1.map (v.keys.read id).2.lookup = _
  rw [Supply.read_read, Supply.lookup_read]
  rfl

theorem afterSource_same (v : Vault) : (source : KeySource) → v.Same (v.afterSource source)
  | .key _ => .refl v
  | .collection id _ => v.afterRing_same id

/-! ### Tokens -/

/-- The vault gives the result of a computation and keeps the stream it leaves, and whatever is
looked up afterwards is found as before. -/
structure Answers {ε α : Type} (v : Vault) (x : Draw ε α) (given : Except ε α × Vault) : Prop where
  result : (given.1, given.2.entropy) = x v.entropy
  alike : v.Alike given.2

section Answers

variable {ε α β : Type} {v v' v'' : Vault} {x : Draw ε α} {r : Except ε α}

theorem run_answers (v : Vault) (x : Draw ε α) : v.Answers x (v.run x) :=
  ⟨rfl, funext fun r => by cases r <;> rfl, rfl, rfl⟩

theorem Answers.of_ofExcept (h : v.Same v') (r : Except ε α) :
    v.Answers (Draw.ofExcept r) (r, v') :=
  ⟨congrArg (r, ·) h.entropy, h.toAlike⟩

theorem Answers.map (f : α → β) {given : Except ε α × Vault} (h : v.Answers x given) :
    v.Answers (f <$> x) (given.1.map f, given.2) := by
  refine ⟨?_, h.alike⟩
  rw [← bind_pure_comp, Draw.bind_apply, ← h.result]
  cases given.1 <;> rfl

theorem Answers.andThen (h : v.Answers x (r, v')) (hsame : v'.Same v'') : v.Answers x (r, v'') :=
  ⟨(congrArg (r, ·) hsame.entropy).trans h.result, h.alike.trans hsame.toAlike⟩

theorem Answers.bind {f : α → Draw ε β} {a : α} {given : Except ε β × Vault}
    (h : v.Answers x (.ok a, v')) (hrest : v'.Answers (f a) given) :
    v.Answers (x >>= f) given :=
  ⟨hrest.result.trans (Draw.bind_ok h.result.symm).symm, h.alike.trans hrest.alike⟩

theorem Answers.bind_error {f : α → Draw ε β} {e : ε} (h : v.Answers x (.error e, v')) :
    v.Answers (x >>= f) (.error e, v') :=
  ⟨(Draw.bind_error h.result.symm).symm, h.alike⟩

end Answers

section Tokens

variable (v : Vault) (p : Profile)

theorem sign_answers (now : Int) (payload : Bytes) (c : SigningCredentials) (extra : Header) :
    v.Answers ((v.issuer p now).sign payload c extra) (v.sign p now payload c extra) := by
  have hrun := v.run_answers ((v.issuer p now).sign payload c extra)
  unfold Vault.sign
  rcases hout : v.run ((v.issuer p now).sign payload c extra) with ⟨result, after⟩
  rw [hout] at hrun
  have hsource := hrun.andThen (afterSource_same after c.source)
  dsimp only
  split
  · exact hsource.andThen (afterRegistry_same _ p.registry)
  · exact hsource

theorem encrypt_answers (now : Int) (payload : Bytes) (c : EncryptingCredentials)
    (cty : Option String) (extra : Header) :
    v.Answers ((v.issuer p now).encrypt payload c cty extra)
      (v.encrypt p now payload c cty extra) := by
  have hrun := v.run_answers ((v.issuer p now).encrypt payload c cty extra)
  unfold Vault.encrypt
  rcases hout : v.run ((v.issuer p now).encrypt payload c cty extra) with ⟨result, after⟩
  rw [hout] at hrun
  have hregistry := hrun.andThen (afterRegistry_same after p.registry)
  dsimp only
  split
  · exact hregistry.andThen (afterSource_same _ c.source)
  · exact hregistry

/-- The token of a vault is that of an issuer with what the vault knows at the start, also when the
signed token and the encrypted one around it are looked up for one after the other. -/
theorem encode_answers (now : Int) (payload : Bytes) (c : Credentials) (extra : Header) :
    v.Answers ((v.issuer p now).encode payload c extra) (v.encode p now payload c extra) := by
  obtain ⟨signing, encrypting⟩ := c
  cases signing with
  | none =>
    cases encrypting with
    | none => exact .of_ofExcept (.refl v) _
    | some e => exact v.encrypt_answers p now payload e none extra
  | some s =>
    have hsign := v.sign_answers p now payload s extra
    cases encrypting with
    | none => exact hsign
    | some e =>
      unfold Vault.encode
      dsimp only
      rcases hout : v.sign p now payload s extra with ⟨result, after⟩
      rw [hout] at hsign
      cases result with
      | error err => exact hsign.bind_error
      | ok inner =>
        have hencrypt := after.encrypt_answers p now (Bytes.ofText inner) e
          (some Issuer.nestedType) Header.empty
        rw [hsign.alike.issuer] at hencrypt
        exact hsign.bind hencrypt

/-- The recipient that reads for a vault. -/
def recipient (keys : List SecretKey) : Recipient := ⟨p.options, v.known p.registry, keys⟩

theorem decode_answers (keys : List SecretKey) (token : String) :
    v.Answers ((v.recipient p keys).decode token) (v.decode p keys token) := by
  unfold Vault.decode Recipient.decode
  change v.Answers (Draw.ofExcept (p.options.screen token) >>= _) _
  cases p.options.screen token with
  | error e => exact (Answers.of_ofExcept (.refl v) (.error e)).bind_error
  | ok t =>
    have hrun := v.run_answers ((v.recipient p keys).openScreened t)
    exact (Answers.of_ofExcept (.refl v) (.ok t)).bind
      (hrun.andThen (afterRegistry_same _ p.registry))

/-- Reading with the keys that a collection has at the start. -/
def ringDecode (ring : CollectionId) (token : String) : Draw TokenError DecodedToken := do
  let keys ← Draw.ofExcept ((v.rings ring).mapError .fault)
  (v.recipient p keys).decode token

theorem decodeWith_answers (ring : CollectionId) (token : String) :
    v.Answers (v.ringDecode p ring token) (v.decodeWith p ring token) := by
  have hring := v.afterRing_same ring
  unfold ringDecode Vault.decodeWith
  cases v.rings ring with
  | error e => exact (Answers.of_ofExcept hring _).bind_error
  | ok keys =>
    have hdecode := (v.afterRing ring).decode_answers p keys token
    rw [recipient, hring.known] at hdecode
    exact (Answers.of_ofExcept hring _).bind hdecode

end Tokens

/-! ### Sessions -/

inductive Request where
  | make (p : Profile) (now : Int) (payload : Bytes) (c : Credentials) (extra : Header)
  | read (p : Profile) (keys : List SecretKey) (token : String)
  | readWith (p : Profile) (ring : CollectionId) (token : String)

/-- A token made, or a token read. -/
abbrev Answer := Except TokenError (String ⊕ DecodedToken)

def serve (v : Vault) : Request → Answer × Vault
  | .make p now payload c extra =>
    let (token, after) := v.encode p now payload c extra
    (token.map .inl, after)
  | .read p keys token =>
    let (decoded, after) := v.decode p keys token
    (decoded.map .inr, after)
  | .readWith p ring token =>
    let (decoded, after) := v.decodeWith p ring token
    (decoded.map .inr, after)

/-- What an issuer or a recipient answers that knows what the vault knows. -/
def response (v : Vault) : Request → Draw TokenError (String ⊕ DecodedToken)
  | .make p now payload c extra => Sum.inl <$> (v.issuer p now).encode payload c extra
  | .read p keys token => Sum.inr <$> (v.recipient p keys).decode token
  | .readWith p ring token => Sum.inr <$> v.ringDecode p ring token

/-- Requests served one after another, each by the vault that the one before it left. -/
def session (v : Vault) : List Request → List Answer × Vault
  | [] => ([], v)
  | r :: rest =>
    let (answer, v) := v.serve r
    let (answers, v) := v.session rest
    (answer :: answers, v)

/-- The responses to requests, with only the stream handed on. -/
def responses (v : Vault) : List Request → Entropy → List Answer × Entropy
  | [], entropy => ([], entropy)
  | r :: rest, entropy =>
    let (answer, entropy) := v.response r entropy
    let (answers, entropy) := v.responses rest entropy
    (answer :: answers, entropy)

theorem Alike.response {v v' : Vault} (h : v.Alike v') : v'.response = v.response := by
  funext r
  cases r <;> simp only [Vault.response, ringDecode, recipient, h.issuer, h.known, h.rings]

theorem Alike.responses {v v' : Vault} (h : v.Alike v') (requests : List Request) :
    v'.responses requests = v.responses requests := by
  induction requests with
  | nil => rfl
  | cons r rest ih =>
    funext entropy
    simp only [Vault.responses, h.response, ih]

theorem serve_answers (v : Vault) (r : Request) : v.Answers (v.response r) (v.serve r) := by
  cases r with
  | make p now payload c extra => exact (v.encode_answers p now payload c extra).map Sum.inl
  | read p keys token => exact (v.decode_answers p keys token).map Sum.inr
  | readWith p ring token => exact (v.decodeWith_answers p ring token).map Sum.inr

/-- A session gives the answers of issuers and recipients that were fixed when it began, however
many collections are merged anew on the way. -/
theorem session_eq_responses (v : Vault) (requests : List Request) :
    ((v.session requests).1, (v.session requests).2.entropy) = v.responses requests v.entropy ∧
      v.Alike (v.session requests).2 := by
  -- What the later requests find is what the first one found, by `Alike`.
  induction requests generalizing v with
  | nil => exact ⟨rfl, .refl v⟩
  | cons r rest ih =>
    have hserve := v.serve_answers r
    obtain ⟨hresult, halike⟩ := ih (v.serve r).2
    refine ⟨?_, hserve.alike.trans halike⟩
    rw [hserve.alike.responses] at hresult
    rw [responses, ← hserve.result]
    dsimp only
    rw [← hresult]
    rfl

end Vault

end TokenSeal
