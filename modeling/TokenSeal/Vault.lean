import TokenSeal.Supply.Registry
import TokenSeal.Token.Decode
/-!
Keys and algorithms in use. A vault holds a supply of keys, a supply of algorithms, the stream of
random bytes and a deflater; making and reading tokens looks things up in it. Looking up may rebuild
a stale collection, so it gives back the vault afterwards, and it is done only when its answer is
needed.
-/

namespace TokenSeal

instance : Disposable SecretKey := ⟨SecretKey.dispose⟩

structure Vault where
  keys : Supply SecretKey := {}
  algorithms : Supply Algorithm := {}
  entropy : Entropy
  deflate : Bytes → Bytes := Deflate.deflate

/-- The built-in algorithms, or those of a collection. -/
inductive Registry where
  | builtin
  | collection (id : CollectionId)
deriving DecidableEq, Repr

namespace Vault

def known (v : Vault) : Registry → Known
  | .builtin => .ok Algorithm.builtin
  | .collection id => (v.algorithms.algorithms id).1

def afterRegistry (v : Vault) : Registry → Vault
  | .builtin => v
  | .collection id => { v with algorithms := (v.algorithms.read id).2 }

def rings (v : Vault) : KeyRings :=
  fun id => (v.keys.read id).1.map v.keys.lookup

def afterRing (v : Vault) (id : CollectionId) : Vault :=
  { v with keys := (v.keys.read id).2 }

/-- The vault after the key of a credential has been looked up. -/
def afterSource (v : Vault) : KeySource → Vault
  | .key _ => v
  | .collection id _ => v.afterRing id

def hasSource (v : Vault) : KeySource → Bool
  | .key _ => true
  | .collection id _ => (v.rings id).toOption.isSome

/-! ### Tokens -/

/-- How tokens are made and read, and with which algorithms. -/
structure Profile where
  options : Options
  registry : Registry

def issuer (v : Vault) (p : Profile) (now : Int) : Issuer :=
  ⟨p.options, v.known p.registry, v.rings, now, v.deflate⟩

/-- Runs a computation that draws from the vault's random bytes. -/
def run {ε α : Type} (v : Vault) (x : Draw ε α) : Except ε α × Vault :=
  let (result, entropy) := x v.entropy
  (result, { v with entropy := entropy })

/-- Makes a signed token. The keys are looked up before the algorithm. -/
def sign (v : Vault) (p : Profile) (now : Int) (payload : Bytes) (c : SigningCredentials)
    (extra : Header) : Except TokenError String × Vault :=
  let (result, after) := v.run ((v.issuer p now).sign payload c extra)
  let after := after.afterSource c.source
  (result, if v.hasSource c.source then after.afterRegistry p.registry else after)

/-- Makes an encrypted token. The content encryption is looked up before the keys. -/
def encrypt (v : Vault) (p : Profile) (now : Int) (payload : Bytes) (c : EncryptingCredentials)
    (cty : Option String) (extra : Header) : Except TokenError String × Vault :=
  let (result, after) := v.run ((v.issuer p now).encrypt payload c cty extra)
  let after := after.afterRegistry p.registry
  let found := (v.known p.registry).find .contentEncryption c.encryption
  (result, if found.toOption.isSome then after.afterSource c.source else after)

def encode (v : Vault) (p : Profile) (now : Int) (payload : Bytes) (c : Credentials)
    (extra : Header) : Except TokenError String × Vault :=
  match c.signing, c.encrypting with
  | some s, none => v.sign p now payload s extra
  | none, some e => v.encrypt p now payload e none extra
  | some s, some e =>
    match v.sign p now payload s extra with
    | (.ok inner, v) =>
      v.encrypt p now (Bytes.ofText inner) e (some Issuer.nestedType) Header.empty
    | (.error e, v) => (.error e, v)
  | none, none => (.error .missingCredentials, v)

def decode (v : Vault) (p : Profile) (keys : List SecretKey) (token : String) :
    Except TokenError DecodedToken × Vault :=
  match p.options.screen token with
  | .error e => (.error e, v)
  | .ok t =>
    let recipient : Recipient := ⟨p.options, v.known p.registry, keys⟩
    let (result, after) := v.run (recipient.openScreened t)
    (result, after.afterRegistry p.registry)

/-- Reads a token with the keys of a collection, which are looked up first. -/
def decodeWith (v : Vault) (p : Profile) (ring : CollectionId) (token : String) :
    Except TokenError DecodedToken × Vault :=
  match v.rings ring with
  | .error e => (.error (.fault e), v.afterRing ring)
  | .ok keys => (v.afterRing ring).decode p keys token

end Vault

end TokenSeal
