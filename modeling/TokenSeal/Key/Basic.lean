import TokenSeal.Key.Material
/-!
Secret keys. A key has an id, hints about its use, and material that can be disposed of for good;
after that nothing about the key can be read but a text for inspection.
-/

namespace TokenSeal

inductive KeyUsage where
  | signing
  | encryption
deriving DecidableEq, Repr

namespace KeyUsage

def all : List KeyUsage := [signing, encryption]

def name : KeyUsage → String
  | signing => "sig"
  | encryption => "enc"

def ofName? (s : String) : Option KeyUsage :=
  all.find? (·.name = s)

def permits : KeyUsage → Family → Bool
  | signing, f => f = .signature
  | encryption, f => f = .contentEncryption || f = .keyManagement

/-- The usage of a key made for an algorithm of a family. -/
def ofFamily? : Family → Option KeyUsage
  | .signature => some signing
  | .contentEncryption => some encryption
  | .keyManagement => some encryption
  | .compression => none

end KeyUsage

/-- Hints about the use of a key. Times are seconds since 1970. -/
structure KeyMetadata where
  algorithm : Option String := none
  notBefore : Option Int := none
  expiresAt : Option Int := none
  usage : Option KeyUsage := none
deriving DecidableEq, Repr

namespace KeyMetadata

/-- Valid from the first moment on, until just before the last. -/
def isValidAt (m : KeyMetadata) (now : Int) : Bool :=
  m.notBefore.all (fun t => decide (t ≤ now)) && m.expiresAt.all fun t => decide (now < t)

end KeyMetadata

/-- What is known of a key's material without holding it. -/
structure KeyProfile where
  keyType : KeyType
  effective : KeyType
  bits : Nat
deriving DecidableEq, Repr

def KeyMaterial.profile (m : KeyMaterial) : KeyProfile :=
  ⟨m.keyType, m.effective.keyType, m.sizeBits⟩

/-- A key; one without material has been disposed of. -/
structure SecretKey where
  id : Option String
  metadata : KeyMetadata
  profile : KeyProfile
  material : Option KeyMaterial
  profile_eq : ∀ m, material = some m → profile = m.profile

namespace SecretKey

def make (id : Option String) (m : KeyMaterial) (metadata : KeyMetadata) : SecretKey :=
  ⟨id, metadata, m.profile, some m, by rintro _ ⟨⟩; rfl⟩

/-- The key without material that algorithms without a key use. -/
def empty : SecretKey := make none .none {}

def withMetadata (k : SecretKey) (metadata : KeyMetadata) : SecretKey :=
  { k with metadata := metadata }

def isDisposed (k : SecretKey) : Bool := k.material.isNone

def dispose (k : SecretKey) : SecretKey :=
  { k with material := none, profile_eq := by simp }

def read (k : SecretKey) : Except Fault KeyMaterial :=
  match k.material with
  | some m => .ok m
  | none => .error (.disposed .secretKey)

/-- A property of a key that is not disposed of. -/
def ask {α : Type} (k : SecretKey) (property : SecretKey → α) : Except Fault α :=
  k.read.map fun _ => property k

def keyId (k : SecretKey) : Except Fault (Option String) := k.ask (·.id)

def hints (k : SecretKey) : Except Fault KeyMetadata := k.ask (·.metadata)

def keyType (k : SecretKey) : Except Fault KeyType := k.ask (·.profile.keyType)

def effectiveType (k : SecretKey) : Except Fault KeyType := k.ask (·.profile.effective)

def sizeBits (k : SecretKey) : Except Fault Nat := k.ask (·.profile.bits)

def isPrivate (k : SecretKey) : Except Fault Bool := k.read.map (·.isPrivate)

def ofPem (id : Option String) (text : String) : Except Fault SecretKey :=
  (KeyMaterial.ofPem text).map fun m => make id m {}

def ofDer (id : Option String) (der : Bytes) : Except Fault SecretKey :=
  (KeyMaterial.ofDer der).map fun m => make id m {}

/-- A text that shows the kind and the size of a key but no secrets. -/
def inspect (k : SecretKey) : String :=
  Text.fields "SecretKey"
    [("key_id", Text.optional (k.id.map Text.literal)),
      ("key_type", Text.literal k.profile.keyType.name), ("size_bits", toString k.profile.bits),
      ("disposed", toString k.isDisposed)] true

end SecretKey

end TokenSeal
