/-!
Finite binary floating-point numbers with a 53-bit mantissa, as JSON texts hold them. A value is
a mantissa times a power of two, so every operation below is exact arithmetic on naturals followed
by one rounding to the nearest representable value, ties going to the even mantissa.
-/

namespace TokenSeal

/-- The number `mantissa * 2 ^ exponent`, negated if `negative`. -/
structure Double where
  negative : Bool
  mantissa : Nat
  exponent : Int
deriving DecidableEq, Repr, Inhabited

namespace Double

/-- The quotient rounded to the nearest natural, ties going to the even one. -/
def roundDiv (num den : Nat) : Nat :=
  let q := num / den
  let r := num % den
  if 2 * r < den then q
  else if den < 2 * r then q + 1
  else if q % 2 = 0 then q
  else q + 1

/-- The numerator and denominator of `num / den * 2 ^ k`. -/
def scaleBy (num den : Nat) (k : Int) : Nat × Nat :=
  match k with
  | .ofNat n => (num <<< n, den)
  | .negSucc n => (num, den <<< (n + 1))

/-- The exponent of the largest power of two that is at most `num / den`. -/
def floorLog2 (num den : Nat) : Int :=
  let guess : Int := (Nat.log2 num : Int) - (Nat.log2 den : Int)
  let (n, d) := scaleBy num den (-guess)
  if n < d then guess - 1 else guess

/-- The smallest exponent, that of the subnormal numbers. -/
def minExponent : Int := -1074

def maxExponent : Int := 971

/-- The nearest value to `num / den`, unless it is out of range. -/
def ofRatio? (negative : Bool) (num den : Nat) : Option Double :=
  if num = 0 then some ⟨negative, 0, minExponent⟩
  else
    let exponent := max (floorLog2 num den - 52) minExponent
    let (n, d) := scaleBy num den (-exponent)
    let mantissa := roundDiv n d
    let (mantissa, exponent) :=
      if mantissa = Nat.pow 2 53 then (Nat.pow 2 52, exponent + 1) else (mantissa, exponent)
    if maxExponent < exponent then none else some ⟨negative, mantissa, exponent⟩

def isZero (x : Double) : Bool := x.mantissa = 0

/-- The rounded value of `10 ^ k`. -/
def powerOfTen? (k : Nat) : Option Double :=
  ofRatio? false (Nat.pow 10 k) 1

def mul? (x y : Double) : Option Double :=
  let (n, d) := scaleBy (x.mantissa * y.mantissa) 1 (x.exponent + y.exponent)
  ofRatio? (x.negative != y.negative) n d

def div? (x y : Double) : Option Double :=
  let (n, d) := scaleBy x.mantissa y.mantissa (x.exponent - y.exponent)
  ofRatio? (x.negative != y.negative) n d

/-- The largest power of ten that one step scales by. -/
def tenStep : Nat := 308

/-- Scales by a power of ten, at most `10 ^ 308` at a time; every step rounds. Four steps take
every value to zero. -/
def scaleTen? : Nat → Double → Int → Option Double
  | 0, x, _ => some { x with mantissa := 0, exponent := minExponent }
  | fuel + 1, x, k =>
    if k.natAbs ≤ tenStep then do
      let p ← powerOfTen? k.natAbs
      if 0 ≤ k then mul? x p else div? x p
    else if x.isZero then some x
    else if 0 ≤ k then none
    else do
      let p ← powerOfTen? tenStep
      let y ← div? x p
      scaleTen? fuel y (k + tenStep)

def ofDecimal? (negative : Bool) (significand : Nat) (k : Int) : Option Double := do
  let x ← ofRatio? false significand 1
  let y ← scaleTen? 4 x k
  return { y with negative := negative }

/-- The open ends of the reals that round to a positive value, as numerators over a common
denominator, with the value itself between them. -/
def neighbourhood (x : Double) : Nat × Nat × Nat × Nat :=
  let below := if x.mantissa = Nat.pow 2 52 ∧ minExponent < x.exponent then 1 else 2
  let (lo, den) := scaleBy (4 * x.mantissa - below) 4 x.exponent
  let (mid, _) := scaleBy (4 * x.mantissa) 4 x.exponent
  let (hi, _) := scaleBy (4 * x.mantissa + 2) 4 x.exponent
  (lo, mid, hi, den)

/-- The numerator and denominator of `num / den * 10 ^ k`. -/
def scaleByTen (num den : Nat) (k : Int) : Nat × Nat :=
  match k with
  | .ofNat n => (num * Nat.pow 10 n, den)
  | .negSucc n => (num, den * Nat.pow 10 (n + 1))

/-- The exponent of the largest power of ten that is at most `num / den`, searched upward from
`low`. -/
def floorLog10 : Nat → Nat → Nat → Int → Int
  | 0, _, _, low => low
  | fuel + 1, num, den, low =>
    let (n, d) := scaleByTen num den (-(low + 1))
    if n < d then low else floorLog10 fuel num den (low + 1)

/-- The multiple of `10 ^ k` nearest to a positive value, if one of its two neighbours on that
grid reads back as the value. -/
def onGrid? (x : Double) (k : Int) : Option Nat :=
  let (lo, mid, hi, den) := neighbourhood x
  let closed := x.mantissa % 2 = 0
  let fits (a : Nat) : Bool :=
    let (n, d) := scaleByTen a 1 k
    (lo * d < n * den ∧ n * den < hi * d) ∨ (closed ∧ (lo * d = n * den ∨ n * den = hi * d))
  let (n, d) := scaleByTen mid den (-k)
  let a := n / d
  let r := n % d
  let nearer := if 2 * r < d then a else if d < 2 * r then a + 1 else if a % 2 = 0 then a else a + 1
  let further := if nearer = a then a + 1 else a
  if fits nearer then some nearer else if fits further then some further else none

/-- The first decimal grid, of 17 and starting at the coarsest, that holds a spelling of the
value. -/
def firstGrid (x : Double) : Nat → Int → Nat × Int
  | 0, k => ((onGrid? x k).getD 0, k)
  | fuel + 1, k =>
    match onGrid? x k with
    | some a => if a = 0 then firstGrid x fuel (k - 1) else (a, k)
    | none => firstGrid x fuel (k - 1)

def decimalDigits (n : Nat) : List Char :=
  Nat.toDigits 10 n

/-- Moves the zeros at the end of a significand into the exponent. -/
def trimZeros : Nat → Nat → Int → Nat × Int
  | 0, a, k => (a, k)
  | fuel + 1, a, k => if a % 10 = 0 ∧ a ≠ 0 then trimZeros fuel (a / 10) (k + 1) else (a, k)

/-- The fewest digits that read back as the value, and the power of ten of the last one. -/
def shortest (x : Double) : Nat × Int :=
  let (_, mid, _, den) := neighbourhood x
  let low := floorLog10 700 mid den (-325)
  let (a, k) := firstGrid x 17 low
  trimZeros 20 a k

def zeros (n : Nat) : List Char := List.replicate n '0'

/-- Positional from `10 ^ -5` up to below `10 ^ 16`, otherwise with a signed exponent; a
positional number has a point. -/
def layout (digits : List Char) (k : Int) : List Char :=
  let top := k + digits.length - 1
  if -5 ≤ top ∧ top < 16 then
    if 0 ≤ k then digits ++ zeros k.toNat ++ ['.', '0']
    else if 0 ≤ top then
      let whole := (top + 1).toNat
      digits.take whole ++ '.' :: digits.drop whole
    else '0' :: '.' :: zeros (-top - 1).toNat ++ digits
  else
    let tail := match digits.drop 1 with
      | [] => []
      | rest => '.' :: rest
    digits.take 1 ++ tail ++ 'e' :: (if 0 ≤ top then '+' else '-') :: decimalDigits top.natAbs

def chars (x : Double) : List Char :=
  let body :=
    if x.isZero then ['0', '.', '0']
    else
      let (a, k) := shortest x
      layout (decimalDigits a) k
  if x.negative then '-' :: body else body

end Double

end TokenSeal
