import TokenSeal.Binding.KeyWrapper
import TokenSeal.Token.Header
/-!
Key management parameters in a header: each algorithm has members of its own.
-/

namespace TokenSeal.Header

def insertBytes (h : Header) (name : String) (bytes : Bytes) : Header :=
  h.insert name (.string (Base64Url.encode bytes))

def insertSome (h : Header) (name : String) (bytes : Bytes) : Header :=
  if bytes = [] then h else h.insertBytes name bytes

def setParameters (h : Header) : WrapParameters → Header
  | .none => h
  | .gcm iv tag => (h.insertBytes "iv" iv).insertBytes "tag" tag
  | .agreement epk apu apv =>
    ((h.insert "epk" epk.toJson).insertSome "apu" apu).insertSome "apv" apv
  | .password salt count => (h.insertBytes "p2s" salt).insert "p2c" (.integer count)

def requiredBytes (h : Header) (name : String) : Except TokenError Bytes :=
  match h.text? name with
  | some text => (Base64Url.decode text).mapError .fault
  | none => .error (.malformed (.missing name))

def optionalBytes (h : Header) (name : String) : Except TokenError Bytes :=
  match h.get? name with
  | none => .ok []
  | some (.string text) => (Base64Url.decode text).mapError .fault
  | some _ => .error (.malformed (.notText name))

def ephemeral (h : Header) : Except TokenError Jwk :=
  match h.get? "epk" with
  | none => .error (.malformed (.missing "epk"))
  | some v =>
    match Jwk.ofJson? v with
    | some j => .ok j
    | none => .error .headerJson

def iterationCount (h : Header) : Except TokenError Nat :=
  match (h.get? "p2c").bind (Json.asNat? (Nat.pow 2 32)) with
  | some n => .ok n
  | none => .error (.malformed .iterationCount)

/-- The parameters that a key management algorithm reads. -/
def parameters (h : Header) : KeyManagement → Except TokenError WrapParameters
  | .gcmWrap _ => do
    let iv ← h.requiredBytes "iv"
    let tag ← h.requiredBytes "tag"
    return .gcm iv tag
  | .agreement _ => do
    let epk ← h.ephemeral
    let apu ← h.optionalBytes "apu"
    let apv ← h.optionalBytes "apv"
    return .agreement epk apu apv
  | .password _ _ => do
    let count ← h.iterationCount
    let salt ← h.requiredBytes "p2s"
    return .password salt count
  | .direct => .ok .none
  | .aesWrap _ => .ok .none
  | .rsaOaep _ => .ok .none

end TokenSeal.Header
