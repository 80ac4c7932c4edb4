import TokenSeal.Algorithm.Family
import TokenSeal.Bytes
import TokenSeal.Number.Modular
/-!
The two curves `y² = x³ - 3x + b` over a prime field. Sums are formed in Jacobian coordinates,
where `(x, y, z)` stands for the point `(x/z², y/z³)` and `z = 0` for the point at infinity.
-/

namespace TokenSeal

/-- The numbers that define a curve: the field, the constant term, the order and the base point. -/
structure CurveData where
  field : Nat
  constant : Nat
  order : Nat
  baseX : Nat
  baseY : Nat

namespace CurveId

def data : CurveId → CurveData
  | p256 =>
    { field := 0xffffffff00000001000000000000000000000000ffffffffffffffffffffffff
      constant := 0x5ac635d8aa3a93e7b3ebbd55769886bc651d06b0cc53b0f63bce3c3e27d2604b
      order := 0xffffffff00000000ffffffffffffffffbce6faada7179e84f3b9cac2fc632551
      baseX := 0x6b17d1f2e12c4247f8bce6e563a440f277037d812deb33a0f4a13945d898c296
      baseY := 0x4fe342e2fe1a7f9b8ee7eb4a7c0f9e162bce33576b315ececbb6406837bf51f5 }
  | p384 =>
    { field := 0xfffffffffffffffffffffffffffffffffffffffffffffffffffffffffffffffeffffffff0000000000000000ffffffff
      constant := 0xb3312fa7e23ee7e4988e056be3f82d19181d9c6efe8141120314088f5013875ac656398d8a2ed19d2a85c8edd3ec2aef
      order := 0xffffffffffffffffffffffffffffffffffffffffffffffffc7634d81f4372ddf581a0db248b0a77aecec196accc52973
      baseX := 0xaa87ca22be8b05378eb1c71ef320ad746e1d3b628ba79b9859f741e082542a385502f25dbf55296c3a545e3872760ab7
      baseY := 0x3617de4a96262c6f5d9e98bf9292dc29f8f41dbd289a147ce9da3113b5f0b8c00a60b1ce1d7e819d7a431d7c90ea0e5f }

/-- The hash that signatures over the curve use. -/
def hash : CurveId → HashId
  | p256 => .sha256
  | p384 => .sha384

def contains (c : CurveId) (x y : Nat) : Bool :=
  let p := c.data.field
  x < p && y < p && y * y % p == (x * x * x + (p - 3) * x + c.data.constant) % p

end CurveId

/-- A point other than the one at infinity. -/
structure Point (c : CurveId) where
  x : Nat
  y : Nat
  onCurve : c.contains x y = true
deriving DecidableEq

structure Jacobian where
  x : Nat
  y : Nat
  z : Nat

namespace Jacobian

def infinity : Jacobian := ⟨1, 1, 0⟩

def double (p : Nat) (a : Jacobian) : Jacobian :=
  if a.z = 0 then a
  else
    let delta := a.z * a.z % p
    let gamma := a.y * a.y % p
    let beta := a.x * gamma % p
    let alpha := 3 * (a.x + p - delta) * (a.x + delta) % p
    let x := (alpha * alpha + 8 * (p - beta)) % p
    let z := 2 * a.y * a.z % p
    let y := (alpha * (4 * beta + p - x) + 8 * (p - gamma) * gamma) % p
    ⟨x, y, z⟩

def add (p : Nat) (a b : Jacobian) : Jacobian :=
  if a.z = 0 then b
  else if b.z = 0 then a
  else
    let za := a.z * a.z % p
    let zb := b.z * b.z % p
    let ua := a.x * zb % p
    let ub := b.x * za % p
    let sa := a.y * (b.z * zb % p) % p
    let sb := b.y * (a.z * za % p) % p
    if ua = ub then if sa = sb then double p a else infinity
    else
      let h := (ub + p - ua) % p
      let r := (sb + p - sa) % p
      let hh := h * h % p
      let hhh := h * hh % p
      let v := ua * hh % p
      let x := (r * r + (p - hhh) + 2 * (p - v)) % p
      let y := (r * (v + p - x) + (p - sa) * hhh) % p
      ⟨x, y, a.z * b.z % p * h % p⟩

/-- Doubles and adds through the low `bits` bits of a factor, the top one first. -/
def mulBits (p : Nat) (a : Jacobian) (factor : Nat) : Nat → Jacobian → Jacobian
  | 0, acc => acc
  | bits + 1, acc =>
    let twice := double p acc
    mulBits p a factor bits (if factor.testBit bits then add p twice a else twice)

def mul (p : Nat) (factor : Nat) (a : Jacobian) : Jacobian :=
  if factor = 0 then infinity else mulBits p a factor (Nat.log2 factor + 1) infinity

/-- The coordinates of a point other than infinity. -/
def affine? (p : Nat) (a : Jacobian) : Option (Nat × Nat) :=
  if a.z = 0 then none
  else do
    let i ← Modular.inverse? a.z p
    let ii := i * i % p
    return (a.x * ii % p, a.y * (ii * i % p) % p)

end Jacobian

namespace Point

variable {c : CurveId}

def jacobian (a : Point c) : Jacobian := ⟨a.x, a.y, 1⟩

def ofCoordinates? (c : CurveId) (x y : Nat) : Option (Point c) :=
  if h : c.contains x y = true then some ⟨x, y, h⟩ else none

def ofJacobian? (c : CurveId) (a : Jacobian) : Option (Point c) := do
  let (x, y) ← a.affine? c.data.field
  ofCoordinates? c x y

def base (c : CurveId) : Jacobian := ⟨c.data.baseX, c.data.baseY, 1⟩

def mul? (factor : Nat) (a : Point c) : Option (Point c) :=
  ofJacobian? c (Jacobian.mul c.data.field factor a.jacobian)

def ofScalar? (c : CurveId) (d : Nat) : Option (Point c) :=
  ofJacobian? c (Jacobian.mul c.data.field d (base c))

end Point

end TokenSeal
