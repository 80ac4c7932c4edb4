import TokenSeal.Binding.Basic
import TokenSeal.Curve.Ecdsa
import TokenSeal.Rsa.Signature
/-!
A key bound to a signature algorithm: signing, also into a buffer, and verifying.
-/

namespace TokenSeal

structure Signer where
  key : SecretKey
  algorithm : Algorithm
  method : SignatureMethod
  size : Nat

namespace Signer

def sizeOf (k : SecretKey) : SignatureMethod → Nat
  | .unsecured => 0
  | .hmac h => h.size
  | .rsaDigest _ => k.profile.bits / 8
  | .rsaSalted _ => k.profile.bits / 8
  | .ecdsa c => 2 * c.width

def bind (k : SecretKey) (a : Algorithm) : Except Fault Signer := do
  checkBinding .signature k a
  match a.method with
  | .signature m => return ⟨k, a, m, sizeOf k m⟩
  | _ => throw (.familyMismatch a.code .signature)

def rsaSecret (m : KeyMaterial) : Except Fault (RsaKey × RsaSecret) :=
  match m.effective with
  | .pair (.rsa k) =>
    match k.secret with
    | some s => .ok (k, s)
    | none => .error .missingPrivateKey
  | other => .error (.keyTypeMismatch "RSA" other.keyType)

/-- The signature of an EC key over its own curve. -/
def ecSignature (k : EcKey) (data : Bytes) : Except Fault Bytes :=
  match k.secret with
  | none => .error .missingPrivateKey
  | some d =>
    match Ecdsa.sign? k.curve d data with
    | some signature => .ok signature
    | none => .error (.signing .internal)

def sign (s : Signer) (data : Bytes) : Draw Fault Bytes := do
  let m ← Draw.ofExcept s.key.read
  match s.method with
  | .unsecured => return []
  | .hmac h =>
    match m.effective with
    | .symmetric bytes => return TokenSeal.hmac h bytes data
    | other => throw (.keyTypeMismatch s.algorithm.code other.keyType)
  | .rsaDigest h =>
    let (k, secret) ← Draw.ofExcept (rsaSecret m)
    Draw.ofExcept ((Rsa.signDigest k secret h data).mapError .signing)
  | .rsaSalted h =>
    let (k, secret) ← Draw.ofExcept (rsaSecret m)
    Draw.mapError .signing (Rsa.signSalted k secret h data)
  | .ecdsa _ =>
    match m.effective with
    | .pair (.ec k) => Draw.ofExcept (ecSignature k data)
    | _ => throw .missingPrivateKey

/-- Signs into the front of a buffer, if there is room. Gives back how many bytes were written and
the buffer. -/
def signInto (s : Signer) (data buffer : Bytes) : Draw Fault (Option Nat × Bytes) :=
  if buffer.length < s.size then return (none, buffer)
  else do
    let signature ← s.sign data
    return (some signature.length, signature ++ buffer.drop signature.length)

/-- Signs into the front of a buffer that the caller keeps, also when that fails. -/
def signOver (s : Signer) (data buffer : Bytes) (e : Entropy) :
    (Except Fault (Option Nat) × Bytes) × Entropy :=
  if buffer.length < s.size then ((.ok none, buffer), e)
  else
    match s.sign data e with
    | (.ok signature, e) =>
      ((.ok (some signature.length), signature ++ buffer.drop signature.length), e)
    | (.error cause, e) => ((.error cause, buffer), e)

def matchesMaterial (method : SignatureMethod) (m : KeyMaterial) (data signature : Bytes) : Bool :=
  match method, m.effective with
  | .unsecured, _ => signature.isEmpty
  | .hmac h, .symmetric bytes => TokenSeal.hmac h bytes data = signature
  | .rsaDigest h, .pair (.rsa k) => Rsa.verifyDigest k h data signature
  | .rsaSalted h, .pair (.rsa k) => Rsa.verifySalted k h data signature
  | .ecdsa _, .pair (.ec k) => Ecdsa.verify k.curve k.point data signature
  | _, _ => false

def verify (s : Signer) (data signature : Bytes) : Except Fault Bool :=
  s.key.read.map fun m => matchesMaterial s.method m data signature

end Signer

end TokenSeal
