import TokenSeal.Curve.Point
import TokenSeal.Hash.Digest
/-!
Signatures over a curve. The nonce comes from the private scalar and the digest through an HMAC
generator, so signing is a function. A signature is the two numbers `r` and `s` side by side; both
`s` and its negation are accepted.
-/

namespace TokenSeal.Ecdsa

structure NonceState where
  key : Bytes
  value : Bytes

def NonceState.update (h : HashId) (s : NonceState) (data : Bytes) : NonceState :=
  let key := hmac h s.key (s.value ++ data)
  ⟨key, hmac h key s.value⟩

def NonceState.start (h : HashId) (seed : Bytes) : NonceState :=
  let s : NonceState := ⟨Bytes.zeros h.size, List.replicate h.size 1⟩
  (s.update h (0 :: seed)).update h (1 :: seed)

/-- Runs the generator until it gives a scalar; gives up after `fuel` tries. -/
def findNonce (h : HashId) (order : Nat) : Nat → NonceState → Option Nat
  | 0, _ => none
  | fuel + 1, s =>
    let value := hmac h s.key s.value
    let k := Bytes.toNat value
    if 0 < k ∧ k < order then some k
    else findNonce h order fuel (NonceState.update h ⟨s.key, value⟩ [0])

def sign? (c : CurveId) (d : Nat) (message : Bytes) : Option Bytes := do
  let n := c.data.order
  let digest := c.hash.digest message
  let z := Bytes.toNat digest
  let seed := Bytes.ofNat c.width d ++ Bytes.ofNat c.width (z % n)
  let k ← findNonce c.hash n 64 (NonceState.start c.hash seed)
  let point ← Point.ofScalar? c k
  let r := point.x % n
  let i ← Modular.inverse? k n
  let s := i * (z + r * d) % n
  if r = 0 ∨ s = 0 then none else return Bytes.ofNat c.width r ++ Bytes.ofNat c.width s

def verify (c : CurveId) (key : Point c) (message signature : Bytes) : Bool :=
  let n := c.data.order
  let p := c.data.field
  if signature.length ≠ 2 * c.width then false
  else
    let r := Bytes.toNat (signature.take c.width)
    let s := Bytes.toNat (signature.drop c.width)
    if r = 0 ∨ n ≤ r ∨ s = 0 ∨ n ≤ s then false
    else
      match Modular.inverse? s n with
      | none => false
      | some w =>
        let z := Bytes.toNat (c.hash.digest message)
        let sum := Jacobian.add p (Jacobian.mul p (z * w % n) (Point.base c))
          (Jacobian.mul p (r * w % n) key.jacobian)
        match sum.affine? p with
        | none => false
        | some (x, _) => x % n = r

end TokenSeal.Ecdsa
