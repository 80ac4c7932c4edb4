import TokenSeal.Bytes
import TokenSeal.Fault
import TokenSeal.Number.Modular
import TokenSeal.Rsa.Primes
/-!
RSA keys and the two trapdoor functions. The private function works modulo each prime and joins
the results; its answer is checked against the public function.
-/

namespace TokenSeal

structure RsaSecret where
  exponent : Nat
  primes : List Nat
deriving DecidableEq

structure RsaKey where
  modulus : Nat
  exponent : Nat
  secret : Option RsaSecret
deriving DecidableEq

namespace RsaKey

def width (k : RsaKey) : Nat := Bytes.widthOf k.modulus

def bitLength (k : RsaKey) : Nat := if k.modulus = 0 then 0 else Nat.log2 k.modulus + 1

def isPrivate (k : RsaKey) : Bool := k.secret.isSome

def toPublic (k : RsaKey) : RsaKey := { k with secret := none }

def maxImportBits : Nat := 4096

def minExponent : Nat := 2

def maxExponent : Nat := Nat.pow 2 33 - 1

/-- The limits on modulus and exponent, in the order in which they are checked. -/
def checkPublic (k : RsaKey) : Except RsaFault Unit :=
  if Nat.pow 2 64 ≤ k.exponent then .error .exponentTooLarge
  else if k.modulus ≤ k.exponent ∨ k.modulus % 2 = 0 then .error .invalidModulus
  else if k.exponent % 2 = 0 then .error .invalidExponent
  else if k.exponent < minExponent then .error .exponentTooSmall
  else if maxExponent < k.exponent then .error .exponentTooLarge
  else .ok ()

def checkSecret (k : RsaKey) (s : RsaSecret) : Except RsaFault Unit :=
  if s.primes.any (· ≤ 1) then .error .invalidPrime
  else if s.primes.foldl (· * ·) 1 ≠ k.modulus then .error .invalidModulus
  else if s.primes.any fun p => k.exponent * s.exponent % (p - 1) ≠ 1 then .error .invalidExponent
  else .ok ()

def ofPublic (modulus exponent : Nat) : Except RsaFault RsaKey := do
  let k : RsaKey := ⟨modulus, exponent, none⟩
  if maxImportBits < k.bitLength then throw .modulusTooLarge
  k.checkPublic
  return k

/-- The primes of a private key: as given, or found from the exponents if none are given. -/
def completePrimes (modulus exponent secret : Nat) : List Nat → Except RsaFault (List Nat)
  | [] =>
    match RsaPrimes.find? modulus exponent secret with
    | some (p, q) => .ok [p, q]
    | none => .error .primesNotFound
  | [_] => .error .fewPrimes
  | primes => .ok primes

def ofPrivate (modulus exponent secret : Nat) (primes : List Nat) : Except RsaFault RsaKey := do
  let primes ← completePrimes modulus exponent secret primes
  let s : RsaSecret := ⟨secret, primes⟩
  let k : RsaKey := ⟨modulus, exponent, some s⟩
  k.checkPublic
  k.checkSecret s
  return k

def applyPublic (k : RsaKey) (m : Nat) : Nat :=
  Modular.pow m k.exponent k.modulus

/-- Extends the answer modulo `r` by the answers modulo the further primes. -/
def joinPrimes? (c d : Nat) : Nat → Nat → List Nat → Option Nat
  | m, _, [] => some m
  | m, r, p :: rest => do
    let coefficient ← Modular.inverse? (r % p) p
    let mp := Modular.pow c (d % (p - 1)) p
    let step := (mp + (p - m % p)) * coefficient % p
    joinPrimes? c d (m + step * r) (r * p) rest

/-- The private function through the primes, where their inverses exist. -/
def applyPrimes? (s : RsaSecret) (c : Nat) : Option Nat :=
  match s.primes with
  | p :: q :: rest => do
    let i ← Modular.inverse? (q % p) p
    let mp := Modular.pow c (s.exponent % (p - 1)) p
    let mq := Modular.pow c (s.exponent % (q - 1)) q
    let h := (mp + (p - mq % p)) * i % p
    joinPrimes? c s.exponent (mq + h * q) (p * q) rest
  | _ => none

/-- The private function. -/
def applySecret (k : RsaKey) (s : RsaSecret) (c : Nat) : Except RsaFault Nat :=
  let m := (applyPrimes? s c).getD (Modular.pow c s.exponent k.modulus)
  if k.applyPublic m = c then .ok m else .error .internal

end RsaKey

end TokenSeal
