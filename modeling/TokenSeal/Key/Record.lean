import TokenSeal.Key.Exchange
/-!
Stored secrets. A record holds secret bytes or a JSON Web Key; older ones hold padded base64 or a
private key container. Importing tells whether a record should be written anew, and what is
written anew need not be.
-/

namespace TokenSeal

structure SecretRecord where
  keyId : Option String
  encoding : String
  algorithm : Option String
  keyType : String
  value : String
deriving DecidableEq, Repr

inductive RecordEncoding where
  | base64url
  | base64
  | jwk
  | pkcs8
deriving DecidableEq, Repr

namespace RecordEncoding

def all : List RecordEncoding := [base64url, base64, jwk, pkcs8]

def name : RecordEncoding → String
  | base64url => "base64url"
  | base64 => "base64"
  | jwk => "jwk"
  | pkcs8 => "pkcs8"

def ofName? (s : String) : Option RecordEncoding :=
  all.find? (·.name = s)

end RecordEncoding

/-- A key from a record, and whether the record should be written anew. -/
structure ImportedSecret where
  key : SecretKey
  requiresMigration : Bool

namespace SecretRecord

def memberNames : List String := ["keyId", "encoding", "algorithm", "type", "value"]

def toJson (r : SecretRecord) : Json :=
  .object (Jwk.textMember "keyId" r.keyId ++ ("encoding", .string r.encoding) ::
    Jwk.textMember "algorithm" r.algorithm ++
    [("type", .string r.keyType), ("value", .string r.value)])

def render (r : SecretRecord) : String := r.toJson.render

def ofFields? (fields : Fields) : Option SecretRecord := do
  match ← fields.slots? memberNames with
  | [keyId, encoding, algorithm, keyType, value] =>
    return {
      keyId := ← keyId.optional Json.asString?
      encoding := ← encoding.required Json.asString?
      algorithm := ← algorithm.optional Json.asString?
      keyType := ← keyType.required Json.asString?
      value := ← value.required Json.asString? }
  | _ => none

def ofText? (text : String) : Option SecretRecord := (Fields.ofText? text).bind ofFields?

/-- A text that shows all of a record but its value. -/
def inspect (r : SecretRecord) : String :=
  let shown (s : Option String) : String := Text.optional (s.map Text.literal)
  Text.fields "SecretRecord" [("key_id", shown r.keyId), ("encoding", Text.literal r.encoding),
    ("algorithm", shown r.algorithm), ("key_type", Text.literal r.keyType)] true

/-! ### Importing -/

def metadata (r : SecretRecord) : KeyMetadata := { algorithm := r.algorithm }

/-- The key of secret bytes; only a record of a symmetric key may hold them. -/
def symmetricKey (r : SecretRecord) (declared : KeyType) (bytes : Except Fault Bytes) :
    Except Fault SecretKey :=
  if declared ≠ .symmetric then .error (.format (.recordEncodingType r.encoding declared))
  else bytes.map fun b => SecretKey.make r.keyId (.symmetric b) r.metadata

def legacyBytes (r : SecretRecord) : Except Fault Bytes :=
  match Base64.decodePadded? r.value with
  | some bytes => .ok bytes
  | none => .error (.format .legacyBase64Text)

/-- What the record says of a key goes before what the key says of itself. -/
def override (outer inner : Option String) : Option String :=
  outer.or inner

def overrides (outer inner : Option String) : Bool :=
  outer.isSome && outer != inner

def jwkKey (r : SecretRecord) : Except Fault ImportedSecret :=
  match Jwk.ofText? r.value with
  | none => .error (.format .recordJwk)
  | some j => do
    let key ← SecretKey.ofJwk
      { j with kid := override r.keyId j.kid, alg := override r.algorithm j.alg }
    return ⟨key, overrides r.keyId j.kid || overrides r.algorithm j.alg⟩

def containerKey (r : SecretRecord) : Except Fault SecretKey := do
  let der ← Base64Url.decode r.value
  let key ← SecretKey.ofDer r.keyId der
  return key.withMetadata r.metadata

def decodeValue (r : SecretRecord) (declared : KeyType) : Except Fault ImportedSecret :=
  match RecordEncoding.ofName? r.encoding with
  | some .base64url => (r.symmetricKey declared (Base64Url.decode r.value)).map (⟨·, false⟩)
  | some .base64 => (r.symmetricKey declared r.legacyBytes).map (⟨·, true⟩)
  | some .jwk => r.jwkKey
  | some .pkcs8 => r.containerKey.map (⟨·, true⟩)
  | none => .error (.format (.recordEncoding r.encoding))

/-- The key in a record. A record whose declared type is wrong should be written anew too. -/
def toKey (r : SecretRecord) : Except Fault ImportedSecret :=
  match KeyType.ofName? r.keyType with
  | none => .error (.format (.recordKeyType r.keyType))
  | some declared => do
    let secret ← r.decodeValue declared
    return { secret with
      requiresMigration := secret.requiresMigration || secret.key.profile.keyType ≠ declared }

/-! ### Writing -/

/-- The record of a key: secret bytes for a symmetric key, a JSON Web Key for any other. -/
def ofKey (k : SecretKey) : Except Fault SecretRecord := do
  let frame (encoding : RecordEncoding) (value : String) : SecretRecord :=
    ⟨k.id, encoding.name, k.metadata.algorithm, k.profile.keyType.name, value⟩
  match ← k.read with
  | .none => throw (.unsupported .emptyKeyRecord)
  | .symmetric bytes => return frame .base64url (Base64Url.encode bytes)
  | _ => return frame .jwk (← k.toJwk true).render

end SecretRecord

end TokenSeal
