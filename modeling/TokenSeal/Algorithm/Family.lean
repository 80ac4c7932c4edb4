/-!
The four families of algorithms, the kinds of key they take, and the two elliptic curves and
three hash functions the families name.
-/

namespace TokenSeal

inductive Family where
  | signature
  | contentEncryption
  | keyManagement
  | compression
deriving DecidableEq, Repr, Inhabited

namespace Family

def all : List Family := [signature, contentEncryption, keyManagement, compression]

def name : Family → String
  | signature => "signature"
  | contentEncryption => "authenticated encryption"
  | keyManagement => "key management"
  | compression => "compression"

def ofName? (s : String) : Option Family :=
  all.find? (·.name = s)

end Family

inductive KeyType where
  | none
  | symmetric
  | rsa
  | ecc
  | certificate
deriving DecidableEq, Repr, Inhabited

namespace KeyType

def all : List KeyType := [none, symmetric, rsa, ecc, certificate]

def name : KeyType → String
  | none => "none"
  | symmetric => "symmetric"
  | rsa => "rsa"
  | ecc => "ecc"
  | certificate => "certificate"

def ofName? (s : String) : Option KeyType :=
  all.find? (·.name = s)

end KeyType

inductive CurveId where
  | p256
  | p384
deriving DecidableEq, Repr, Inhabited

namespace CurveId

def all : List CurveId := [p256, p384]

def name : CurveId → String
  | p256 => "P-256"
  | p384 => "P-384"

def bits : CurveId → Nat
  | p256 => 256
  | p384 => 384

/-- Bytes of one coordinate, and of a private scalar. -/
def width (c : CurveId) : Nat := c.bits / 8

def ofName? (s : String) : Option CurveId :=
  all.find? (·.name = s)

def ofBits? (n : Nat) : Option CurveId :=
  all.find? (·.bits = n)

end CurveId

inductive HashId where
  | sha256
  | sha384
  | sha512
deriving DecidableEq, Repr, Inhabited

namespace HashId

/-- Digest size in bytes. -/
def size : HashId → Nat
  | sha256 => 32
  | sha384 => 48
  | sha512 => 64

/-- Bytes taken in at a time. -/
def block : HashId → Nat
  | sha256 => 64
  | sha384 => 128
  | sha512 => 128

end HashId

end TokenSeal
