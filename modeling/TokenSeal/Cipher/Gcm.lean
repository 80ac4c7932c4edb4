import TokenSeal.Cipher.Aes
/-!
Galois/counter mode with a 12-byte IV and a 16-byte tag. The text is added to the enciphered
counters, and the tag is the enciphered first counter added to a polynomial hash of the
associated data, the ciphertext and their lengths.
-/

namespace TokenSeal.Gcm

def ivLength : Nat := 12

def tagLength : Nat := 16

/-- An element of the field of 2^128 elements: the coefficients of the low powers in the top
bits of `hi`. -/
structure Element where
  hi : UInt64
  lo : UInt64
deriving DecidableEq, Repr

def u64Of (bytes : Bytes) : UInt64 :=
  bytes.foldl (fun n b => n <<< 8 ||| b.toUInt64) 0

def u64Bytes (n : UInt64) : Bytes :=
  [(n >>> 56).toUInt8, (n >>> 48).toUInt8, (n >>> 40).toUInt8, (n >>> 32).toUInt8,
    (n >>> 24).toUInt8, (n >>> 16).toUInt8, (n >>> 8).toUInt8, n.toUInt8]

namespace Element

/-- A block, filled up with zeros. -/
def ofBytes (block : Bytes) : Element :=
  let full := block ++ Bytes.zeros (16 - block.length)
  ⟨u64Of (full.take 8), u64Of ((full.drop 8).take 8)⟩

def bytes (x : Element) : Bytes := u64Bytes x.hi ++ u64Bytes x.lo

end Element

/-- Adds up the multiples of `(vh, vl)` that the top bits of `(xh, xl)` select. -/
def multiplyBits : Nat → UInt64 → UInt64 → UInt64 → UInt64 → UInt64 → UInt64 → Element
  | 0, _, _, _, _, zh, zl => ⟨zh, zl⟩
  | n + 1, xh, xl, vh, vl, zh, zl =>
    let pick : UInt64 := (0 : UInt64) - (xh >>> 63)
    let reduce : UInt64 := ((0 : UInt64) - (vl &&& 1)) &&& 0xe100000000000000
    multiplyBits n (xh <<< 1 ||| xl >>> 63) (xl <<< 1)
      (vh >>> 1 ^^^ reduce) (vh <<< 63 ||| vl >>> 1)
      (zh ^^^ (vh &&& pick)) (zl ^^^ (vl &&& pick))

def Element.mul (x y : Element) : Element :=
  multiplyBits 128 x.hi x.lo y.hi y.lo 0 0

def hashBlocks (h : Element) (start : Element) (data : Bytes) : Element :=
  (chunks 16 data).foldl (fun x block =>
    let y := Element.ofBytes block
    Element.mul ⟨x.hi ^^^ y.hi, x.lo ^^^ y.lo⟩ h) start

/-- The polynomial hash of associated data and ciphertext. -/
def polynomialHash (h : Element) (aad ciphertext : Bytes) : Bytes :=
  let x := hashBlocks h (hashBlocks h ⟨0, 0⟩ aad) ciphertext
  (hashBlocks h x (Bytes.ofNat 8 (aad.length * 8) ++ Bytes.ofNat 8 (ciphertext.length * 8))).bytes

def counter (iv : Bytes) (i : Nat) : Bytes :=
  iv ++ Bytes.ofNat 4 (i % Nat.pow 2 32)

def keystreamOnto (k : Aes.Schedule) (iv : Bytes) : Nat → Nat → List Bytes → List Bytes
  | 0, _, done => done.reverse
  | n + 1, i, done => keystreamOnto k iv n (i + 1) (k.encrypt (counter iv i) :: done)

/-- Adds the keystream, which starts at the second counter. It undoes itself. -/
def applyKeystream (k : Aes.Schedule) (iv text : Bytes) : Bytes :=
  Bytes.xor text (keystreamOnto k iv ((text.length + 15) / 16) 2 []).flatten

def tagOf (k : Aes.Schedule) (iv aad ciphertext : Bytes) : Bytes :=
  let h := Element.ofBytes (k.encrypt (Bytes.zeros 16))
  Bytes.xor (polynomialHash h aad ciphertext) (k.encrypt (counter iv 1))

/-- The ciphertext, as long as the text, and its tag. -/
def encrypt (k : Aes.Schedule) (iv aad text : Bytes) : Bytes × Bytes :=
  let ciphertext := applyKeystream k iv text
  (ciphertext, tagOf k iv aad ciphertext)

def decrypt? (k : Aes.Schedule) (iv aad ciphertext tag : Bytes) : Option Bytes :=
  if tag = tagOf k iv aad ciphertext then some (applyKeystream k iv ciphertext) else none

end TokenSeal.Gcm
