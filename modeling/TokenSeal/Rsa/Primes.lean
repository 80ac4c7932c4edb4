import TokenSeal.Number.SquareRoot
/-!
The two primes of a modulus, found from its two exponents. The product of the exponents gives the
sum of the primes, and sum and product give the primes as the roots of a quadratic equation.
-/

namespace TokenSeal.RsaPrimes

/-- The public exponents from which primes are found lie between these two. -/
def exponentBounds : Nat × Nat := (Nat.pow 2 16, Nat.pow 2 256)

/-- The sum of the primes. `a` is a multiple of `(p - 1) * (q - 1)`, the modulus less `p + q - 1`.
Unless `a` is too large, `factor` is how often it holds that product, and what `a` lacks to
`factor` times the modulus is `factor` times `p + q - 1`. -/
def sum? (modulus exponent secret : Nat) : Option Nat :=
  let order := exponent * secret - 1
  let a := order * Nat.gcd (modulus - 1) order
  let factor := a / modulus + 1
  let rest := modulus - a % modulus
  if rest % factor = 0 then some (rest / factor + 1) else none

/-- Two numbers, the larger first, from their sum and their product. -/
def ofSum? (sum product : Nat) : Option (Nat × Nat) := do
  if sum * sum ≤ 4 * product then none
  let difference ← SquareRoot.whole? (sum * sum - 4 * product)
  return ((sum + difference) / 2, (sum - difference) / 2)

/-- The primes of a modulus, the larger first. -/
def find? (modulus exponent secret : Nat) : Option (Nat × Nat) := do
  if exponent ≤ exponentBounds.1 ∨ exponentBounds.2 ≤ exponent then none
  let sum ← sum? modulus exponent secret
  ofSum? sum modulus

end TokenSeal.RsaPrimes
