import TokenSeal.Bytes
/-!
The SHA-256 compression function. A block is sixteen words; the message schedule keeps the last
sixteen of its words and makes one more in each round.
-/

namespace TokenSeal.Sha256

structure State where
  a : UInt32
  b : UInt32
  c : UInt32
  d : UInt32
  e : UInt32
  f : UInt32
  g : UInt32
  h : UInt32
deriving DecidableEq, Repr

def initial : State :=
  ⟨0x6a09e667, 0xbb67ae85, 0x3c6ef372, 0xa54ff53a,
    0x510e527f, 0x9b05688c, 0x1f83d9ab, 0x5be0cd19⟩

def roundConstants : Array UInt32 :=
  #[0x428a2f98, 0x71374491, 0xb5c0fbcf, 0xe9b5dba5,
    0x3956c25b, 0x59f111f1, 0x923f82a4, 0xab1c5ed5,
    0xd807aa98, 0x12835b01, 0x243185be, 0x550c7dc3,
    0x72be5d74, 0x80deb1fe, 0x9bdc06a7, 0xc19bf174,
    0xe49b69c1, 0xefbe4786, 0x0fc19dc6, 0x240ca1cc,
    0x2de92c6f, 0x4a7484aa, 0x5cb0a9dc, 0x76f988da,
    0x983e5152, 0xa831c66d, 0xb00327c8, 0xbf597fc7,
    0xc6e00bf3, 0xd5a79147, 0x06ca6351, 0x14292967,
    0x27b70a85, 0x2e1b2138, 0x4d2c6dfc, 0x53380d13,
    0x650a7354, 0x766a0abb, 0x81c2c92e, 0x92722c85,
    0xa2bfe8a1, 0xa81a664b, 0xc24b8b70, 0xc76c51a3,
    0xd192e819, 0xd6990624, 0xf40e3585, 0x106aa070,
    0x19a4c116, 0x1e376c08, 0x2748774c, 0x34b0bcb5,
    0x391c0cb3, 0x4ed8aa4a, 0x5b9cca4f, 0x682e6ff3,
    0x748f82ee, 0x78a5636f, 0x84c87814, 0x8cc70208,
    0x90befffa, 0xa4506ceb, 0xbef9a3f7, 0xc67178f2]

@[inline] def rotate (x : UInt32) (n : UInt32) : UInt32 :=
  x >>> n ||| x <<< (32 - n)

@[inline] def choose (x y z : UInt32) : UInt32 := (x &&& y) ^^^ (~~~x &&& z)

@[inline] def majority (x y z : UInt32) : UInt32 := (x &&& y) ^^^ (x &&& z) ^^^ (y &&& z)

@[inline] def bigSigma0 (x : UInt32) : UInt32 := rotate x 2 ^^^ rotate x 13 ^^^ rotate x 22

@[inline] def bigSigma1 (x : UInt32) : UInt32 := rotate x 6 ^^^ rotate x 11 ^^^ rotate x 25

@[inline] def smallSigma0 (x : UInt32) : UInt32 := rotate x 7 ^^^ rotate x 18 ^^^ x >>> 3

@[inline] def smallSigma1 (x : UInt32) : UInt32 := rotate x 17 ^^^ rotate x 19 ^^^ x >>> 10

def rounds (left : Nat) (a b c d e f g h : UInt32)
    (w0 w1 w2 w3 w4 w5 w6 w7 w8 w9 w10 w11 w12 w13 w14 w15 : UInt32) : State :=
  match left with
  | 0 => ⟨a, b, c, d, e, f, g, h⟩
  | left + 1 =>
    let t1 := h + bigSigma1 e + choose e f g + roundConstants.getD (63 - left) 0 + w0
    let t2 := bigSigma0 a + majority a b c
    let w16 := smallSigma1 w14 + w9 + smallSigma0 w1 + w0
    rounds left (t1 + t2) a b c (d + t1) e f g
      w1 w2 w3 w4 w5 w6 w7 w8 w9 w10 w11 w12 w13 w14 w15 w16

@[inline] def compressWords (s : State)
    (w0 w1 w2 w3 w4 w5 w6 w7 w8 w9 w10 w11 w12 w13 w14 w15 : UInt32) : State :=
  let t := rounds 64 s.a s.b s.c s.d s.e s.f s.g s.h
    w0 w1 w2 w3 w4 w5 w6 w7 w8 w9 w10 w11 w12 w13 w14 w15
  ⟨s.a + t.a, s.b + t.b, s.c + t.c, s.d + t.d, s.e + t.e, s.f + t.f, s.g + t.g, s.h + t.h⟩

@[inline] def wordAt (data : ByteArray) (i : Nat) : UInt32 :=
  (data.get! (i + 0)).toUInt32 <<< 24 ||| (data.get! (i + 1)).toUInt32 <<< 16 ||| (data.get! (i + 2)).toUInt32 <<< 8 ||| (data.get! (i + 3)).toUInt32

/-- Takes in the block that starts at byte `i`. -/
def compress (s : State) (data : ByteArray) (i : Nat) : State :=
  compressWords s (wordAt data i) (wordAt data (i + 4)) (wordAt data (i + 8)) (wordAt data (i + 12))
    (wordAt data (i + 16)) (wordAt data (i + 20)) (wordAt data (i + 24)) (wordAt data (i + 28))
    (wordAt data (i + 32)) (wordAt data (i + 36)) (wordAt data (i + 40)) (wordAt data (i + 44))
    (wordAt data (i + 48)) (wordAt data (i + 52)) (wordAt data (i + 56)) (wordAt data (i + 60))

def compressAll : Nat → State → ByteArray → Nat → State
  | 0, s, _, _ => s
  | blocks + 1, s, data, i => compressAll blocks (compress s data i) data (i + 64)

def wordBytes (w : UInt32) : Bytes :=
  [(w >>> 24).toUInt8, (w >>> 16).toUInt8, (w >>> 8).toUInt8, w.toUInt8]

def State.bytes (s : State) : Bytes :=
  wordBytes s.a ++ wordBytes s.b ++ wordBytes s.c ++ wordBytes s.d ++
    wordBytes s.e ++ wordBytes s.f ++ wordBytes s.g ++ wordBytes s.h

/-- The message with a one bit, zeros, and its length in bits, counting `before` bytes that were
taken in earlier; a multiple of 64 bytes. -/
def padded (before : Nat) (message : Bytes) : ByteArray :=
  let n := message.length
  let gap := (64 - (n + 1 + 8) % 64) % 64
  ⟨(message ++ 0x80 :: Bytes.zeros gap ++ Bytes.ofNat 8 ((before + n) * 8)).toArray⟩

/-- Takes in the end of a message of which `before` bytes were taken in already. -/
def finish (s : State) (before : Nat) (message : Bytes) : State :=
  let data := padded before message
  compressAll (data.size / 64) s data 0

def State.xor (s t : State) : State :=
  ⟨s.a ^^^ t.a, s.b ^^^ t.b, s.c ^^^ t.c, s.d ^^^ t.d, s.e ^^^ t.e, s.f ^^^ t.f, s.g ^^^ t.g, s.h ^^^ t.h⟩

end TokenSeal.Sha256
