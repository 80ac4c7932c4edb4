import TokenSeal.Algorithm.Family
/-!
What can go wrong below the level of tokens. A fault names its cause; `Fault.kind` is the coarse
class a caller branches on, and `Fault.message` is the wording.

There is no fault for a random source that fails: `Draw.bytes` takes the source to deliver, so no
computation here could end in one.
-/

namespace TokenSeal

inductive FaultKind where
  | unknownAlgorithm
  | noMatchingKey
  | invalidKeySize
  | format
  | integrity
  | disposed
  | other
deriving DecidableEq, Repr

inductive FormatFault where
  | base64Length (length : Nat)
  | base64Room (held needed : Nat)
  | base64Text
  | legacyBase64Text
  | deflateData
  | deflateTruncated
  | deflateTrailing
  | deflateFailed
  | deflateStuck
  | payloadTooLong
  | inflatedTooLong
  | outputRoom (held needed : Nat)
  | missingGcmParameters
  | missingEphemeralKey
  | missingPasswordParameters
  | iterationCount (most : Nat)
  | shortSalt
  | ephemeralKeyType (kty : String)
  | ephemeralCurve
  | ephemeralCoordinate (name : String)
  | recordKeyType (name : String)
  | recordEncoding (name : String)
  | recordEncodingType (encoding : String) (declared : KeyType)
  | recordJwk
deriving DecidableEq, Repr

namespace FormatFault

def message : FormatFault → String
  | base64Length n => s!"base64url: length {n} is not a valid encoding length"
  | base64Room held needed => s!"base64url: destination holds {held} bytes, {needed} needed"
  | base64Text => "base64url: invalid Base64 encoding"
  | legacyBase64Text => "legacy base64: invalid Base64 encoding"
  | deflateData => "inflate: deflate decompression error"
  | deflateTruncated => "truncated deflate stream"
  | deflateTrailing => "trailing bytes after deflate stream"
  | deflateFailed => "deflate: deflate compression error"
  | deflateStuck => "deflate made no progress"
  | payloadTooLong => "payload exceeds size limit"
  | inflatedTooLong => "decompressed payload exceeds size limit"
  | outputRoom held needed => s!"output buffer of {held} bytes for {needed} bytes of ciphertext"
  | missingGcmParameters => "missing iv/tag header"
  | missingEphemeralKey => "missing epk header"
  | missingPasswordParameters => "missing p2s/p2c header"
  | iterationCount most => s!"p2c must be between 1 and {most}"
  | shortSalt => "p2s is too short"
  | ephemeralKeyType kty => s!"epk key type {kty}"
  | ephemeralCurve => "epk curve"
  | ephemeralCoordinate name => s!"epk is missing {name}"
  | recordKeyType name => s!"unknown key type {name}"
  | recordEncoding name => s!"unknown secret encoding {name}"
  | recordEncodingType encoding declared => s!"{encoding} encoding cannot hold a {declared.name} key"
  | recordJwk => "JWK record"

end FormatFault

/-- Numbers that make no usable RSA key, and RSA operations that cannot be carried out. -/
inductive RsaFault where
  | modulusTooLarge
  | exponentTooLarge
  | exponentTooSmall
  | invalidModulus
  | invalidExponent
  | invalidPrime
  | fewPrimes
  | primesNotFound
  | messageTooLong
  | tooFewPrimes
  | internal
deriving DecidableEq, Repr

namespace RsaFault

def message : RsaFault → String
  | modulusTooLarge => "modulus too large"
  | exponentTooLarge => "public exponent too large"
  | exponentTooSmall => "public exponent too small"
  | invalidModulus => "invalid modulus"
  | invalidExponent => "invalid exponent"
  | invalidPrime => "invalid prime value"
  | fewPrimes => "nprimes must be >= 2"
  | primesNotFound => "invalid arguments"
  | messageTooLong => "message too long"
  | tooFewPrimes => "too few primes of given length to generate an RSA key"
  | internal => "internal error"

end RsaFault

inductive KeyFault where
  | certificateContent
  | coordinateTooLong (curve : CurveId)
  | point (curve : CurveId)
  | scalar (curve : CurveId)
  | pem
  | der
  | jwkMissing (member : String)
  | jwkMember (member : String) (cause : FormatFault)
  | jwkUse (text : String)
  | certificateChain
  | scalarMismatch
  | rsaPublic (cause : RsaFault)
  | rsaPrivate (cause : RsaFault)
  | aesKeyLength (mode : String) (length : Nat)
deriving DecidableEq, Repr

namespace KeyFault

def message : KeyFault → String
  | certificateContent => "certificate must wrap an RSA or EC key"
  | coordinateTooLong c => s!"{c.name} coordinate longer than {c.width} bytes"
  | point c => s!"{c.name} point: crypto error"
  | scalar c => s!"{c.name} scalar: crypto error"
  | pem => "PEM is not an RSA, P-256 or P-384 PKCS#8 private key"
  | der => "DER is not an RSA, P-256 or P-384 PKCS#8 private key"
  | jwkMissing member => s!"JWK is missing {member}"
  | jwkMember member cause => s!"JWK member {member}: Format error: {cause.message}"
  | jwkUse text => s!"JWK use {text}"
  | certificateChain => "x5c: invalid Base64 encoding"
  | scalarMismatch => "EC private scalar does not match x/y"
  | rsaPublic cause => s!"RSA public key: {cause.message}"
  | rsaPrivate cause => s!"RSA private key: {cause.message}"
  | aesKeyLength mode n => s!"{mode} key of {n} bytes"

end KeyFault

/-- Requests that a key or an algorithm has no answer to. -/
inductive UnsupportedRequest where
  | jwkKeyType (kty : String)
  | curve (name : String)
  | noJwk
  | noPublicForm
  | multiPrime
  | certificateGeneration
  | emptyKeyRecord
  | derivesContentKey (code : String)
deriving DecidableEq, Repr

namespace UnsupportedRequest

def message : UnsupportedRequest → String
  | jwkKeyType kty => s!"JWK key type {kty}"
  | curve name => s!"curve {name}"
  | noJwk => "key has no JWK representation"
  | noPublicForm => "symmetric keys have no public form"
  | multiPrime => "multi-prime RSA export"
  | certificateGeneration => "certificates cannot be generated"
  | emptyKeyRecord => "the empty key cannot be persisted"
  | derivesContentKey code => s!"{code} derives the content key and cannot wrap one"

end UnsupportedRequest

inductive EncryptionFault where
  | ivLength (needed : Nat)
  | keyWrapLength
  | rsa (cause : RsaFault)
deriving DecidableEq, Repr

namespace EncryptionFault

def message : EncryptionFault → String
  | ivLength needed => s!"IV must be {needed} bytes"
  | keyWrapLength => "AES-KW: InvalidDataSize"
  | rsa cause => cause.message

end EncryptionFault

inductive Resource where
  | secretKey
  | dataSource
  | collection
deriving DecidableEq, Repr

namespace Resource

def name : Resource → String
  | secretKey => "secret key"
  | dataSource => "data source"
  | collection => "collection"

end Resource

inductive Fault where
  | unknownAlgorithm (code : String)
  | noMatchingKey (code : String)
  | invalidKeySize (code : String) (bits : Nat)
  | format (cause : FormatFault)
  | integrity
  | disposed (what : Resource)
  | familyMismatch (code : String) (expected : Family)
  | keyTypeMismatch (user : String) (got : KeyType)
  | missingPrivateKey
  | unsupported (request : UnsupportedRequest)
  | invalidKey (cause : KeyFault)
  | keyGeneration (cause : RsaFault)
  | encryption (cause : EncryptionFault)
  | signing (cause : RsaFault)
  | cancelled
deriving DecidableEq, Repr

namespace Fault

def kind : Fault → FaultKind
  | unknownAlgorithm _ => .unknownAlgorithm
  | noMatchingKey _ => .noMatchingKey
  | invalidKeySize _ _ => .invalidKeySize
  | format _ => .format
  | integrity => .integrity
  | disposed _ => .disposed
  | familyMismatch _ _ => .unknownAlgorithm
  | keyTypeMismatch _ _ => .noMatchingKey
  | missingPrivateKey => .noMatchingKey
  | unsupported _ => .other
  | invalidKey _ => .other
  | keyGeneration _ => .other
  | encryption _ => .other
  | signing _ => .other
  | cancelled => .other

def message : Fault → String
  | unknownAlgorithm code => s!"Unknown algorithm: {code}"
  | noMatchingKey code => s!"No matching key for algorithm {code}"
  | invalidKeySize code bits => s!"Invalid key size for {code}: {bits} bits"
  | format cause => s!"Format error: {cause.message}"
  | integrity => "Integrity check failed"
  | disposed what => s!"{what.name} has been disposed"
  | familyMismatch code expected => s!"Algorithm {code} does not belong to the {expected.name} family"
  | keyTypeMismatch user got => s!"Key type {got.name} is not accepted by {user}"
  | missingPrivateKey => "Key has no private component"
  | unsupported request => s!"Unsupported operation: {request.message}"
  | invalidKey cause => s!"Invalid key material: {cause.message}"
  | keyGeneration cause => s!"Key generation failed: {cause.message}"
  | encryption cause => s!"Encryption failed: {cause.message}"
  | signing cause => s!"Signing failed: {cause.message}"
  | cancelled => "Operation cancelled"

end Fault

end TokenSeal
