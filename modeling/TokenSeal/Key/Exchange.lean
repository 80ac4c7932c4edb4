import TokenSeal.Key.Basic
import TokenSeal.Key.Jwk
/-!
Importing keys from JSON Web Keys and exporting them. What is exported imports to the same key.
-/

namespace TokenSeal.SecretKey

def memberBytes (member : String) (value : Option String) : Except Fault Bytes := do
  let text ← Jwk.required member value
  match Base64Url.decode text with
  | .ok bytes => return bytes
  | .error (.format cause) => throw (.invalidKey (.jwkMember member cause))
  | .error other => throw other

def memberNat (member : String) (value : Option String) : Except Fault Nat :=
  (memberBytes member value).map Bytes.toNat

def rsaOfJwk (j : Jwk) : Except Fault RsaKey := do
  let n ← memberNat "n" j.n
  let e ← memberNat "e" j.e
  if j.d.isNone then
    (RsaKey.ofPublic n e).mapError fun cause => .invalidKey (.rsaPublic cause)
  else
    let d ← memberNat "d" j.d
    let p ← memberNat "p" j.p
    let q ← memberNat "q" j.q
    (RsaKey.ofPrivate n e d [p, q]).mapError fun cause => .invalidKey (.rsaPrivate cause)

def ecOfJwk (j : Jwk) : Except Fault EcKey := do
  let crv ← Jwk.required "crv" j.crv
  match CurveId.ofName? crv with
  | none => throw (.unsupported (.curve crv))
  | some curve =>
    let x ← memberBytes "x" j.x
    let y ← memberBytes "y" j.y
    let publicKey ← EcKey.ofCoordinates curve x y
    if j.d.isNone then return publicKey
    let d ← memberBytes "d" j.d
    let key ← EcKey.ofScalar curve d
    if key.coordinates = publicKey.coordinates then return key
    else throw (.invalidKey .scalarMismatch)

def bareMaterial (j : Jwk) : Except Fault KeyMaterial :=
  if j.kty = "oct" then (memberBytes "k" j.k).map .symmetric
  else if j.kty = "RSA" then (rsaOfJwk j).map fun k => .pair (.rsa k)
  else if j.kty = "EC" then (ecOfJwk j).map fun k => .pair (.ec k)
  else .error (.unsupported (.jwkKeyType j.kty))

/-- Puts the first certificate of a chain around an RSA or EC key. -/
def certified (chain : Option (List String)) (m : KeyMaterial) : Except Fault KeyMaterial :=
  match chain, m with
  | some (leaf :: _), .pair p =>
    match Base64.decodePadded? leaf with
    | some der => .ok (.certificate der p)
    | none => .error (.invalidKey .certificateChain)
  | _, m => .ok m

def usageOfJwk : Option String → Except Fault (Option KeyUsage)
  | none => .ok none
  | some text =>
    match KeyUsage.ofName? text with
    | some u => .ok (some u)
    | none => .error (.invalidKey (.jwkUse text))

def ofJwk (j : Jwk) : Except Fault SecretKey := do
  let bare ← bareMaterial j
  let m ← certified j.x5c bare
  let usage ← usageOfJwk j.use
  return make j.kid m { algorithm := j.alg, usage := usage }

/-! ### Exporting -/

def natText (n : Nat) : Option String := some (Base64Url.encode (Bytes.minimal n))

def bytesText (bytes : Bytes) : Option String := some (Base64Url.encode bytes)

def exportRsa (k : RsaKey) (withPrivate : Bool) (j : Jwk) : Except Fault Jwk :=
  let j := { j with kty := "RSA", n := natText k.modulus, e := natText k.exponent }
  match k.secret with
  | some s =>
    if withPrivate then
      match s.primes with
      | [p, q] => .ok { j with d := natText s.exponent, p := natText p, q := natText q }
      | _ => .error (.unsupported .multiPrime)
    else .ok j
  | none => .ok j

def exportEc (k : EcKey) (withPrivate : Bool) (j : Jwk) : Jwk :=
  let (x, y) := k.coordinates
  { j with
    kty := "EC", crv := some k.curve.name, x := bytesText x, y := bytesText y
    d := if withPrivate then k.scalar?.bind bytesText else none }

def exportPair (p : KeyPair) (withPrivate : Bool) (j : Jwk) : Except Fault Jwk :=
  match p with
  | .rsa k => exportRsa k withPrivate j
  | .ec k => .ok (exportEc k withPrivate j)

/-- The members that do not depend on the material. -/
def jwkFrame (k : SecretKey) : Jwk :=
  { kty := "", kid := k.id, alg := k.metadata.algorithm, use := k.metadata.usage.map (·.name) }

/-- The key as a JSON Web Key, with its private members only when asked for. -/
def toJwk (k : SecretKey) (withPrivate : Bool) : Except Fault Jwk := do
  let j := k.jwkFrame
  match ← k.read with
  | .none => throw (.unsupported .noJwk)
  | .symmetric bytes =>
    if withPrivate then return { j with kty := "oct", k := bytesText bytes }
    else throw (.unsupported .noPublicForm)
  | .pair p => exportPair p withPrivate j
  | .certificate der p =>
    exportPair p withPrivate { j with
      x5c := some [Base64.encodePadded der]
      x5tS256 := bytesText (KeyMaterial.certificateDigest der) }

end TokenSeal.SecretKey
