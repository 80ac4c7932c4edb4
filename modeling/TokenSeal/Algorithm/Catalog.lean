import TokenSeal.Algorithm.Basic
import TokenSeal.Fault
/-!
The algorithms that come with the library, and looking algorithms up by family and code.
-/

namespace TokenSeal.Algorithm

def rsaSizes : KeySizes := ⟨2048, 16384, 8⟩

def rsaDefaultBits : Nat := 2048

def maxHmacBits : Nat := 8192

/-- An HMAC key is at least as long as the hash. -/
def hmac (code : String) (h : HashId) : Algorithm :=
  ⟨code, .symmetric, [⟨8 * h.size, maxHmacBits, 8⟩], 8 * h.size, .signature (.hmac h)⟩

def rsaSignature (code : String) (m : SignatureMethod) : Algorithm :=
  ⟨code, .rsa, [rsaSizes], rsaDefaultBits, .signature m⟩

def ecdsa (code : String) (c : CurveId) : Algorithm :=
  ⟨code, .ecc, [.exact c.bits], c.bits, .signature (.ecdsa c)⟩

def unsecured : Algorithm :=
  ⟨"none", .none, [.exact 0], 0, .signature .unsecured⟩

def signatures : List Algorithm :=
  [unsecured, hmac "HS256" .sha256, hmac "HS384" .sha384, hmac "HS512" .sha512,
    rsaSignature "RS256" (.rsaDigest .sha256), rsaSignature "RS384" (.rsaDigest .sha384),
    rsaSignature "RS512" (.rsaDigest .sha512), rsaSignature "PS256" (.rsaSalted .sha256),
    rsaSignature "PS384" (.rsaSalted .sha384), rsaSignature "PS512" (.rsaSalted .sha512),
    ecdsa "ES256" .p256, ecdsa "ES384" .p384]

def cipher (code : String) (c : ContentCipher) : Algorithm :=
  ⟨code, .symmetric, [.exact c.keyBits], c.keyBits, .contentEncryption c⟩

def contentCiphers : List Algorithm :=
  [cipher "A128GCM" (.gcm 128), cipher "A192GCM" (.gcm 192), cipher "A256GCM" (.gcm 256),
    cipher "A128CBC-HS256" (.cbcHmac 256 .sha256), cipher "A192CBC-HS384" (.cbcHmac 384 .sha384),
    cipher "A256CBC-HS512" (.cbcHmac 512 .sha512)]

def wrapping (code : String) (bits : Nat) (m : KeyManagement) : Algorithm :=
  ⟨code, .symmetric, [.exact bits], bits, .keyManagement m⟩

def agreement (code : String) (wrapBits : Option Nat) : Algorithm :=
  ⟨code, .ecc, [.exact 256, .exact 384], 256, .keyManagement (.agreement wrapBits)⟩

def password (code : String) (h : HashId) (wrapBits : Nat) : Algorithm :=
  ⟨code, .symmetric, [⟨8, 8192, 8⟩], 256, .keyManagement (.password h wrapBits)⟩

/-- A directly shared key is checked against the content cipher, so any size is legal here. -/
def direct : Algorithm :=
  ⟨"dir", .symmetric, [], 256, .keyManagement .direct⟩

def keyManagement : List Algorithm :=
  [direct, wrapping "A128KW" 128 (.aesWrap 128), wrapping "A192KW" 192 (.aesWrap 192),
    wrapping "A256KW" 256 (.aesWrap 256), wrapping "A128GCMKW" 128 (.gcmWrap 128),
    wrapping "A192GCMKW" 192 (.gcmWrap 192), wrapping "A256GCMKW" 256 (.gcmWrap 256),
    agreement "ECDH-ES" none, agreement "ECDH-ES+A128KW" (some 128),
    agreement "ECDH-ES+A192KW" (some 192), agreement "ECDH-ES+A256KW" (some 256),
    password "PBES2-HS256+A128KW" .sha256 128, password "PBES2-HS384+A192KW" .sha384 192,
    password "PBES2-HS512+A256KW" .sha512 256,
    ⟨"RSA-OAEP-256", .rsa, [rsaSizes], rsaDefaultBits, .keyManagement (.rsaOaep .sha256)⟩]

def compressions : List Algorithm :=
  [⟨"none", .none, [.exact 0], 0, .compression .identity⟩,
    ⟨"DEF", .none, [.exact 0], 0, .compression .deflate⟩]

def builtin : List Algorithm :=
  signatures ++ contentCiphers ++ keyManagement ++ compressions

/-! ### Looking up -/

/-- The first of the known algorithms with this code in this family. -/
def find (known : List Algorithm) (family : Family) (code : String) : Except Fault Algorithm :=
  match known.find? (·.isNamed family code) with
  | some a => .ok a
  | none => .error (.unknownAlgorithm code)

def findForKeyType (known : List Algorithm) (family : Family) (code : String) (t : KeyType) :
    Except Fault Algorithm :=
  match known.find? fun a => a.isNamed family code && a.accepts t with
  | some a => .ok a
  | none => .error (.unknownAlgorithm code)

def codes (known : List Algorithm) (family : Family) : List String :=
  (known.filter (·.family = family)).map (·.code)

def familyCode (a : Algorithm) : String := a.family.name ++ ":" ++ a.code

end TokenSeal.Algorithm
