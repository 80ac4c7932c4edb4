import TokenSeal.Entropy
import TokenSeal.Rsa.Key
/-!
New RSA keys: two different primes, both with their two top bits set so that the modulus has the
length asked for.
-/

namespace TokenSeal.Rsa

def publicExponent : Nat := 65537

/-- A number of `bits` bits that is odd and has its two top bits set. -/
def candidate (bits : Nat) (bytes : Bytes) : Nat :=
  let top := 3 * Nat.pow 2 (bits - 2)
  (top ||| Bytes.toNat bytes % Nat.pow 2 (bits - 2)) ||| 1

/-- Draws candidates until one is prime and not `avoid`. -/
def findPrime (bits avoid : Nat) : Nat → Draw RsaFault Nat
  | 0 => throw .tooFewPrimes
  | fuel + 1 => do
    let bytes ← Draw.bytes ((bits + 7) / 8)
    let n := candidate bits bytes
    if n ≠ avoid ∧ Modular.isProbablePrime n then return n else findPrime bits avoid fuel

/-- The number of candidates to try; a prime turns up long before. -/
def attempts (bits : Nat) : Nat := 64 * bits + 1024

/-- Below twelve bits there are not enough primes to choose from. -/
def minGeneratedBits : Nat := 12

def findKey (bits : Nat) : Nat → Draw RsaFault RsaKey
  | 0 => throw .tooFewPrimes
  | fuel + 1 => do
    let p ← findPrime (bits / 2) 0 (attempts bits)
    let q ← findPrime (bits - bits / 2) p (attempts bits)
    match Modular.inverse? publicExponent ((p - 1) * (q - 1)) with
    | none => findKey bits fuel
    | some d =>
      if Nat.log2 (p * q) + 1 ≠ bits then findKey bits fuel
      else Draw.ofExcept (RsaKey.ofPrivate (p * q) publicExponent d [p, q])

def generate (bits : Nat) : Draw RsaFault RsaKey :=
  if bits < minGeneratedBits then throw .tooFewPrimes else findKey bits 64

end TokenSeal.Rsa
