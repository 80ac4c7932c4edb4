import TokenSeal.Der.PrivateKey
import TokenSeal.Hash.Digest
import TokenSeal.Text.Literal
/-!
What keys are made of: nothing, secret bytes, an RSA or EC key pair, or such a pair behind a
certificate. A certificate only stands around its pair; `KeyMaterial.effective` looks through it.
-/

namespace TokenSeal

/-- A public point with the private scalar it comes from, if that is known. -/
structure EcKey where
  curve : CurveId
  point : Point curve
  secret : Option Nat
  secret_valid : ∀ d, secret = some d →
    0 < d ∧ d < curve.data.order ∧ Point.ofScalar? curve d = some point

namespace EcKey

def isPrivate (k : EcKey) : Bool := k.secret.isSome

def ofPoint {c : CurveId} (p : Point c) : EcKey :=
  ⟨c, p, none, by simp⟩

/-- The key of a number in the range of the order. -/
def ofNat? (c : CurveId) (d : Nat) : Option EcKey :=
  if hd : 0 < d ∧ d < c.data.order then
    match h : Point.ofScalar? c d with
    | some p => some ⟨c, p, some d, by rintro _ ⟨⟩; exact ⟨hd.1, hd.2, h⟩⟩
    | none => none
  else none

/-- A public key from big-endian coordinates, which may be short. -/
def ofCoordinates (c : CurveId) (x y : Bytes) : Except Fault EcKey :=
  if c.width < x.length ∨ c.width < y.length then .error (.invalidKey (.coordinateTooLong c))
  else
    match Point.ofCoordinates? c (Bytes.toNat x) (Bytes.toNat y) with
    | some p => .ok (ofPoint p)
    | none => .error (.invalidKey (.point c))

def ofScalar (c : CurveId) (bytes : Bytes) : Except Fault EcKey :=
  match (Der.scalar? c bytes).bind (ofNat? c) with
  | some k => .ok k
  | none => .error (.invalidKey (.scalar c))

/-- Both coordinates at full width. -/
def coordinates (k : EcKey) : Bytes × Bytes :=
  (Bytes.ofNat k.curve.width k.point.x, Bytes.ofNat k.curve.width k.point.y)

/-- The private scalar at full width. -/
def scalar? (k : EcKey) : Option Bytes :=
  k.secret.map (Bytes.ofNat k.curve.width)

end EcKey

inductive KeyPair where
  | rsa (key : RsaKey)
  | ec (key : EcKey)

namespace KeyPair

def keyType : KeyPair → KeyType
  | rsa _ => .rsa
  | ec _ => .ecc

def sizeBits : KeyPair → Nat
  | rsa k => 8 * k.width
  | ec k => k.curve.bits

def isPrivate : KeyPair → Bool
  | rsa k => k.isPrivate
  | ec k => k.isPrivate

end KeyPair

inductive KeyMaterial where
  | none
  | symmetric (bytes : Bytes)
  | pair (pair : KeyPair)
  | certificate (der : Bytes) (pair : KeyPair)

namespace KeyMaterial

def effective : KeyMaterial → KeyMaterial
  | certificate _ p => pair p
  | m => m

def keyType : KeyMaterial → KeyType
  | none => .none
  | symmetric _ => .symmetric
  | pair p => p.keyType
  | certificate _ _ => .certificate

def sizeBits : KeyMaterial → Nat
  | none => 0
  | symmetric bytes => 8 * bytes.length
  | pair p => p.sizeBits
  | certificate _ p => p.sizeBits

def isPrivate : KeyMaterial → Bool
  | none => false
  | symmetric _ => true
  | pair p => p.isPrivate
  | certificate _ p => p.isPrivate

def certify (der : Bytes) : KeyMaterial → Except Fault KeyMaterial
  | pair p => .ok (certificate der p)
  | _ => .error (.invalidKey .certificateContent)

def certificateDigest (der : Bytes) : Bytes := HashId.sha256.digest der

def ofContainer? (der : Bytes) : Option KeyMaterial := do
  let info ← Der.privateKeyInfo? der
  match Der.rsaKey? info with
  | some k => return pair (.rsa k)
  | Option.none =>
    let k ← CurveId.all.findSome? fun c => (Der.ecScalar? c info).bind (EcKey.ofNat? c)
    return pair (.ec k)

def ofDer (der : Bytes) : Except Fault KeyMaterial :=
  match ofContainer? der with
  | some m => .ok m
  | Option.none => .error (.invalidKey .der)

def ofPem (text : String) : Except Fault KeyMaterial :=
  match (Pem.decode? text).bind ofContainer? with
  | some m => .ok m
  | Option.none => .error (.invalidKey .pem)

/-- A text that shows the kind and the size of the material and nothing else. -/
def inspect (m : KeyMaterial) : String :=
  Text.fields "KeyMaterial" [("type", Text.literal m.keyType.name), ("bits", toString m.sizeBits)]
    true

end KeyMaterial

end TokenSeal
