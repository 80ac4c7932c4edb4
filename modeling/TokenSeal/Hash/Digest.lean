import TokenSeal.Algorithm.Family
import TokenSeal.Hash.Sha256
import TokenSeal.Hash.Sha512
/-!
The three hash functions, HMAC over them, and the password-based derivation that iterates HMAC.
-/

namespace TokenSeal

inductive HashState where
  | narrow (s : Sha256.State)
  | wide (s : Sha512.State)

namespace HashId

def start : HashId → HashState
  | sha256 => .narrow Sha256.initial
  | sha384 => .wide Sha512.initial384
  | sha512 => .wide Sha512.initial

/-- The digest, given the state after `before` bytes and the rest of the message. -/
def finish (h : HashId) (s : HashState) (before : Nat) (message : Bytes) : Bytes :=
  match s with
  | .narrow s => (Sha256.finish s before message).bytes.take h.size
  | .wide s => (Sha512.finish s before message).bytes.take h.size

def digest (h : HashId) (message : Bytes) : Bytes :=
  h.finish h.start 0 message

end HashId

/-- An HMAC key, taken in once for the inner and once for the outer hash. -/
structure HmacKey where
  hash : HashId
  inner : HashState
  outer : HashState

namespace HmacKey

/-- A key of exactly one block: longer keys are hashed, and zeros fill it up. -/
def block (h : HashId) (key : Bytes) : Bytes :=
  let short := if h.block < key.length then h.digest key else key
  short ++ Bytes.zeros (h.block - short.length)

def absorb (s : HashState) (block : Bytes) : HashState :=
  match s with
  | .narrow s => .narrow (Sha256.compress s ⟨block.toArray⟩ 0)
  | .wide s => .wide (Sha512.compress s ⟨block.toArray⟩ 0)

def make (h : HashId) (key : Bytes) : HmacKey :=
  let b := block h key
  { hash := h
    inner := absorb h.start (b.map (· ^^^ 0x36))
    outer := absorb h.start (b.map (· ^^^ 0x5c)) }

def tag (k : HmacKey) (message : Bytes) : Bytes :=
  k.hash.finish k.outer k.hash.block (k.hash.finish k.inner k.hash.block message)

end HmacKey

def hmac (h : HashId) (key message : Bytes) : Bytes :=
  (HmacKey.make h key).tag message

namespace Pbkdf2

/-- Repeats HMAC on its own 32-byte result, and adds up the results. -/
def iterate256 : Nat → Sha256.State → Sha256.State → Sha256.State → Sha256.State → Sha256.State
  | 0, _, _, _, sum => sum
  | n + 1, inner, outer, u, sum =>
    let v := Sha256.compressWords inner u.a u.b u.c u.d u.e u.f u.g u.h
      0x80000000 0 0 0 0 0 0 768
    let u := Sha256.compressWords outer v.a v.b v.c v.d v.e v.f v.g v.h
      0x80000000 0 0 0 0 0 0 768
    iterate256 n inner outer u (sum.xor u)

def iterate384 : Nat → Sha512.State → Sha512.State → Sha512.State → Sha512.State → Sha512.State
  | 0, _, _, _, sum => sum
  | n + 1, inner, outer, u, sum =>
    let v := Sha512.compressWords inner u.a u.b u.c u.d u.e u.f
      0x8000000000000000 0 0 0 0 0 0 0 0 1408
    let u := Sha512.compressWords outer v.a v.b v.c v.d v.e v.f
      0x8000000000000000 0 0 0 0 0 0 0 0 1408
    iterate384 n inner outer u (sum.xor u)

def iterate512 : Nat → Sha512.State → Sha512.State → Sha512.State → Sha512.State → Sha512.State
  | 0, _, _, _, sum => sum
  | n + 1, inner, outer, u, sum =>
    let v := Sha512.compressWords inner u.a u.b u.c u.d u.e u.f u.g u.h
      0x8000000000000000 0 0 0 0 0 0 1536
    let u := Sha512.compressWords outer v.a v.b v.c v.d v.e v.f v.g v.h
      0x8000000000000000 0 0 0 0 0 0 1536
    iterate512 n inner outer u (sum.xor u)

/-- One block of derived key: `count` results of HMAC, the first of them on `seed`. -/
def derivedBlock (k : HmacKey) (seed : Bytes) (count : Nat) : Bytes :=
  match k.inner, k.outer with
  | .narrow inner, .narrow outer =>
    let first := Sha256.finish outer 64 (Sha256.finish inner 64 seed).bytes
    (iterate256 (count - 1) inner outer first first).bytes.take k.hash.size
  | .wide inner, .wide outer =>
    let first := Sha512.finish outer 128 ((Sha512.finish inner 128 seed).bytes.take k.hash.size)
    let sum :=
      if k.hash = .sha384 then iterate384 (count - 1) inner outer first first
      else iterate512 (count - 1) inner outer first first
    sum.bytes.take k.hash.size
  | _, _ => []

/-- The first `length` bytes of the key derived from a password. -/
def derive (h : HashId) (password salt : Bytes) (count length : Nat) : Bytes :=
  let k := HmacKey.make h password
  let blocks := (length + h.size - 1) / h.size
  ((List.range blocks).flatMap fun i =>
    derivedBlock k (salt ++ Bytes.ofNat 4 (i + 1)) count).take length

end Pbkdf2

end TokenSeal
