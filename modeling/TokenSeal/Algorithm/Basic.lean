import TokenSeal.Algorithm.Family
/-!
What is known of an algorithm: the code that names it in a token, the type and the sizes of its
keys, and how it works. How it works settles which family it belongs to.
-/

namespace TokenSeal

/-- Key sizes in bits: from `least` up to `most`, `step` apart. -/
structure KeySizes where
  least : Nat
  most : Nat
  step : Nat
deriving DecidableEq, Repr

namespace KeySizes

def exact (bits : Nat) : KeySizes := ⟨bits, bits, 0⟩

/-- A step of zero admits the least size only. -/
def contains (s : KeySizes) (bits : Nat) : Bool :=
  if bits < s.least ∨ s.most < bits then false
  else if s.step = 0 then bits = s.least
  else (bits - s.least) % s.step = 0

end KeySizes

inductive SignatureMethod where
  | unsecured
  | hmac (hash : HashId)
  | rsaDigest (hash : HashId)
  | rsaSalted (hash : HashId)
  | ecdsa (curve : CurveId)
deriving DecidableEq, Repr

inductive ContentCipher where
  | gcm (keyBits : Nat)
  /-- One half of the key authenticates, the other enciphers. -/
  | cbcHmac (keyBits : Nat) (hash : HashId)
deriving DecidableEq, Repr

namespace ContentCipher

def keyBits : ContentCipher → Nat
  | gcm bits => bits
  | cbcHmac bits _ => bits

def keyLength (c : ContentCipher) : Nat := c.keyBits / 8

def ivLength : ContentCipher → Nat
  | gcm _ => 12
  | cbcHmac _ _ => 16

def tagLength : ContentCipher → Nat
  | gcm _ => 16
  | cbcHmac bits _ => bits / 16

def ciphertextLength : ContentCipher → Nat → Nat
  | gcm _, n => n
  | cbcHmac _ _, n => (n / 16 + 1) * 16

end ContentCipher

inductive KeyManagement where
  /-- The shared key is the content key. -/
  | direct
  | aesWrap (bits : Nat)
  | gcmWrap (bits : Nat)
  /-- The agreed secret is the content key, or wraps it under a key of so many bits. -/
  | agreement (wrapBits : Option Nat)
  | password (hash : HashId) (wrapBits : Nat)
  | rsaOaep (hash : HashId)
deriving DecidableEq, Repr

inductive Compression where
  | identity
  | deflate
deriving DecidableEq, Repr

inductive Method where
  | signature (m : SignatureMethod)
  | contentEncryption (c : ContentCipher)
  | keyManagement (m : KeyManagement)
  | compression (c : Compression)
deriving DecidableEq, Repr

namespace Method

def family : Method → Family
  | signature _ => .signature
  | contentEncryption _ => .contentEncryption
  | keyManagement _ => .keyManagement
  | compression _ => .compression

end Method

structure Algorithm where
  code : String
  keyType : KeyType
  keySizes : List KeySizes
  defaultBits : Nat
  method : Method
deriving DecidableEq, Repr

namespace Algorithm

def family (a : Algorithm) : Family := a.method.family

/-- Without listed sizes every size is legal. -/
def isLegalSize (a : Algorithm) (bits : Nat) : Bool :=
  a.keySizes.isEmpty || a.keySizes.any (·.contains bits)

def accepts (a : Algorithm) (t : KeyType) : Bool := a.keyType = t

def isNamed (a : Algorithm) (family : Family) (code : String) : Bool :=
  a.family = family && a.code = code

end Algorithm

end TokenSeal
