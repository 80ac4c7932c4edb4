/-!
Arithmetic modulo a natural number: powers, inverses, and a test for primes.
-/

namespace TokenSeal.Modular

/-- Squares and multiplies through the low `bits` bits of the exponent, the top one first. -/
def powBits (base exponent modulus : Nat) : Nat → Nat → Nat
  | 0, acc => acc
  | bits + 1, acc =>
    let square := acc * acc % modulus
    powBits base exponent modulus bits
      (if exponent.testBit bits then square * base % modulus else square)

def pow (base exponent modulus : Nat) : Nat :=
  if exponent = 0 then 1 % modulus
  else powBits (base % modulus) exponent modulus (Nat.log2 exponent + 1) (1 % modulus)

/-- Euclid's algorithm; `s` and `t` are the multipliers of the first argument that leave `a`
and `b`. -/
def euclid : Nat → Nat → Int → Nat → Int → Nat × Int
  | 0, a, s, _, _ => (a, s)
  | fuel + 1, a, s, b, t =>
    if b = 0 then (a, s) else euclid fuel b t (a % b) (s - (a / b : Nat) * t)

/-- The inverse of `a` modulo `m`, if they have no common factor. -/
def inverse? (a m : Nat) : Option Nat :=
  let (g, s) := euclid (2 * (Nat.log2 a + Nat.log2 m) + 8) (a % m) 1 m 0
  if g = 1 then some (s % m).toNat else none

def smallPrimes : List Nat :=
  [2, 3, 5, 7, 11, 13, 17, 19, 23, 29, 31, 37, 41, 43, 47, 53, 59, 61, 67, 71, 73, 79, 83, 89, 97,
    101, 103, 107, 109, 113, 127, 131, 137, 139, 149, 151, 157, 163, 167, 173, 179, 181, 191, 193,
    197, 199, 211, 223, 227, 229, 233, 239, 241, 251, 257, 263, 269, 271, 277, 281, 283, 293, 307,
    311, 313, 317, 331, 337, 347, 349, 353, 359, 367, 373, 379, 383, 389, 397, 401, 409, 419, 421,
    431, 433, 439, 443, 449, 457, 461, 463, 467, 479, 487, 491, 499, 503, 509, 521, 523, 541]

/-- How often 2 divides a number, up to `fuel`. -/
def twos : Nat → Nat → Nat
  | 0, _ => 0
  | fuel + 1, n => if n % 2 = 0 then twos fuel (n / 2) + 1 else 0

/-- Whether repeated squaring of `x` meets `-1` modulo `n`. -/
def meetsMinusOne (n : Nat) : Nat → Nat → Bool
  | 0, _ => false
  | fuel + 1, x => x = n - 1 || meetsMinusOne n fuel (x * x % n)

def passesBase (n base : Nat) : Bool :=
  let s := twos (Nat.log2 n + 1) (n - 1)
  let x := pow base ((n - 1) >>> s) n
  x = 1 || meetsMinusOne n s x

/-- Trial division by the small primes, then twenty rounds of Miller-Rabin. -/
def isProbablePrime (n : Nat) : Bool :=
  if n < 2 then false
  else if smallPrimes.contains n then true
  else if smallPrimes.any fun p => n % p = 0 then false
  else (smallPrimes.take 20).all (passesBase n)

end TokenSeal.Modular
