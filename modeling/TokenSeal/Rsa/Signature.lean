import TokenSeal.Entropy
import TokenSeal.Hash.Digest
import TokenSeal.Rsa.Key
/-!
RSA signatures. In the first form the digest stands behind the name of its hash and a run of 0xff
bytes; in the second it is mixed with a random salt, as long as the digest, under a mask.
-/

namespace TokenSeal.Rsa

/-- The DER header that names a hash in front of its digest. -/
def digestHeader : HashId → Bytes
  | .sha256 => [0x30, 0x31, 0x30, 0x0d, 0x06, 0x09, 0x60, 0x86, 0x48, 0x01, 0x65, 0x03, 0x04, 0x02,
      0x01, 0x05, 0x00, 0x04, 0x20]
  | .sha384 => [0x30, 0x41, 0x30, 0x0d, 0x06, 0x09, 0x60, 0x86, 0x48, 0x01, 0x65, 0x03, 0x04, 0x02,
      0x02, 0x05, 0x00, 0x04, 0x30]
  | .sha512 => [0x30, 0x51, 0x30, 0x0d, 0x06, 0x09, 0x60, 0x86, 0x48, 0x01, 0x65, 0x03, 0x04, 0x02,
      0x03, 0x05, 0x00, 0x04, 0x40]

/-- The block that the first form signs, if it fits in `width` bytes. -/
def digestBlock? (h : HashId) (width : Nat) (message : Bytes) : Option Bytes :=
  let tail := digestHeader h ++ h.digest message
  if width < tail.length + 11 then none
  else some (0 :: 1 :: List.replicate (width - tail.length - 3) 0xff ++ 0 :: tail)

def signDigest (k : RsaKey) (s : RsaSecret) (h : HashId) (message : Bytes) :
    Except RsaFault Bytes :=
  match digestBlock? h k.width message with
  | none => .error .messageTooLong
  | some block => (k.applySecret s (Bytes.toNat block)).map (Bytes.ofNat k.width)

/-- The block that a signature of the right length and size stands for. -/
def openBlock? (k : RsaKey) (signature : Bytes) : Option Bytes :=
  let s := Bytes.toNat signature
  if k.modulus ≤ s ∨ signature.length ≠ k.width then none
  else some (Bytes.ofNat k.width (k.applyPublic s))

def verifyDigest (k : RsaKey) (h : HashId) (message signature : Bytes) : Bool :=
  match openBlock? k signature, digestBlock? h k.width message with
  | some found, some expected => found = expected
  | _, _ => false

/-- The first `length` bytes of the hashes of a seed with a counter. -/
def mask (h : HashId) (seed : Bytes) (length : Nat) : Bytes :=
  ((List.range ((length + h.size - 1) / h.size)).flatMap fun i =>
    h.digest (seed ++ Bytes.ofNat 4 i)).take length

def clearTop (n : Nat) : Bytes → Bytes
  | [] => []
  | b :: rest => UInt8.ofNat (b.toNat % Nat.pow 2 (8 - n)) :: rest

def saltedDigest (h : HashId) (digest salt : Bytes) : Bytes :=
  h.digest (Bytes.zeros 8 ++ digest ++ salt)

/-- The masked block of `bits` bits that the second form signs. -/
def saltedBlock? (h : HashId) (bits : Nat) (message salt : Bytes) : Option Bytes :=
  let width := (bits + 7) / 8
  if width < 2 * h.size + 2 then none
  else
    let tail := saltedDigest h (h.digest message) salt
    let room := width - h.size - 1
    let body := Bytes.zeros (room - salt.length - 1) ++ 1 :: salt
    some (clearTop (8 * width - bits) (Bytes.xor body (mask h tail room)) ++ tail ++ [0xbc])

/-- Whether a block of `bits` bits is one that signs the message, with some salt. -/
def matchesSalted (h : HashId) (bits : Nat) (message block : Bytes) : Bool :=
  let width := (bits + 7) / 8
  let room := width - h.size - 1
  let masked := block.take room
  let tail := (block.drop room).take h.size
  if width < 2 * h.size + 2 ∨ block.length ≠ width ∨ block.getLast? ≠ some 0xbc then false
  else if clearTop (8 * width - bits) masked ≠ masked then false
  else
    let body := clearTop (8 * width - bits) (Bytes.xor masked (mask h tail room))
    let gap := room - h.size - 1
    if body.take gap ≠ Bytes.zeros gap ∨ (body.drop gap).head? ≠ some 1 then false
    else tail = saltedDigest h (h.digest message) (body.drop (gap + 1))

def signSalted (k : RsaKey) (s : RsaSecret) (h : HashId) (message : Bytes) : Draw RsaFault Bytes := do
  let salt ← Draw.bytes h.size
  match saltedBlock? h (k.bitLength - 1) message salt with
  | none => throw .internal
  | some block =>
    let m ← Draw.ofExcept (k.applySecret s (Bytes.toNat block))
    return Bytes.ofNat k.width m

def verifySalted (k : RsaKey) (h : HashId) (message signature : Bytes) : Bool :=
  match openBlock? k signature with
  | none => false
  | some block =>
    let bits := k.bitLength - 1
    matchesSalted h bits message (block.drop (k.width - (bits + 7) / 8))

end TokenSeal.Rsa
