import TokenSeal.Algorithm.Basic
import TokenSeal.Key.Basic
import TokenSeal.Rsa.Generate
/-!
New keys for an algorithm. The size is settled before anything is drawn.
-/

namespace TokenSeal.SecretKey

/-- The size asked for, if it is legal, or else the size the algorithm prefers. -/
def generatedBits (a : Algorithm) : Option Nat → Except Fault Nat
  | none => .ok a.defaultBits
  | some bits => if a.isLegalSize bits then .ok bits else .error (.invalidKeySize a.code bits)

/-- Draws scalars until one is in the range of the order. -/
def drawEcKey (c : CurveId) : Nat → Draw Fault EcKey
  | 0 => throw (.invalidKey (.scalar c))
  | fuel + 1 => do
    let bytes ← Draw.bytes c.width
    match EcKey.ofNat? c (Bytes.toNat bytes) with
    | some k => return k
    | none => drawEcKey c fuel

/-- The number of scalars to draw; nearly every one is in the range. -/
def scalarAttempts : Nat := 64

def generateMaterial (a : Algorithm) (bits : Nat) : Draw Fault KeyMaterial :=
  match a.keyType with
  | .none => return .none
  | .symmetric =>
    if bits = 0 ∨ bits % 8 ≠ 0 then throw (.invalidKeySize a.code bits)
    else return .symmetric (← Draw.bytes (bits / 8))
  | .rsa => return .pair (.rsa (← Draw.mapError .keyGeneration (Rsa.generate bits)))
  | .ecc =>
    match CurveId.ofBits? bits with
    | some c => return .pair (.ec (← drawEcKey c scalarAttempts))
    | none => throw (.invalidKeySize a.code bits)
  | .certificate => throw (.unsupported .certificateGeneration)

/-- A new key for an algorithm, of its default size or of a given legal one. -/
def generate (id : Option String) (a : Algorithm) (bits : Option Nat) : Draw Fault SecretKey := do
  let size ← Draw.ofExcept (generatedBits a bits)
  let m ← generateMaterial a size
  return make id m { algorithm := some a.code, usage := KeyUsage.ofFamily? a.family }

end TokenSeal.SecretKey
