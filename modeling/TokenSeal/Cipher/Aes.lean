import TokenSeal.Bytes
/-!
The AES block cipher with keys of 16, 24 and 32 bytes. A block is four columns, each a 32-bit word
with its top byte first. A round looks each byte up in a table that substitutes it and mixes its
column; decryption uses the inverse tables and round keys with the mixing undone.
-/

namespace TokenSeal.Aes

def substitution : Array UInt32 :=
  #[0x63, 0x7c, 0x77, 0x7b, 0xf2, 0x6b, 0x6f, 0xc5, 0x30, 0x01, 0x67, 0x2b, 0xfe, 0xd7, 0xab, 0x76,
    0xca, 0x82, 0xc9, 0x7d, 0xfa, 0x59, 0x47, 0xf0, 0xad, 0xd4, 0xa2, 0xaf, 0x9c, 0xa4, 0x72, 0xc0,
    0xb7, 0xfd, 0x93, 0x26, 0x36, 0x3f, 0xf7, 0xcc, 0x34, 0xa5, 0xe5, 0xf1, 0x71, 0xd8, 0x31, 0x15,
    0x04, 0xc7, 0x23, 0xc3, 0x18, 0x96, 0x05, 0x9a, 0x07, 0x12, 0x80, 0xe2, 0xeb, 0x27, 0xb2, 0x75,
    0x09, 0x83, 0x2c, 0x1a, 0x1b, 0x6e, 0x5a, 0xa0, 0x52, 0x3b, 0xd6, 0xb3, 0x29, 0xe3, 0x2f, 0x84,
    0x53, 0xd1, 0x00, 0xed, 0x20, 0xfc, 0xb1, 0x5b, 0x6a, 0xcb, 0xbe, 0x39, 0x4a, 0x4c, 0x58, 0xcf,
    0xd0, 0xef, 0xaa, 0xfb, 0x43, 0x4d, 0x33, 0x85, 0x45, 0xf9, 0x02, 0x7f, 0x50, 0x3c, 0x9f, 0xa8,
    0x51, 0xa3, 0x40, 0x8f, 0x92, 0x9d, 0x38, 0xf5, 0xbc, 0xb6, 0xda, 0x21, 0x10, 0xff, 0xf3, 0xd2,
    0xcd, 0x0c, 0x13, 0xec, 0x5f, 0x97, 0x44, 0x17, 0xc4, 0xa7, 0x7e, 0x3d, 0x64, 0x5d, 0x19, 0x73,
    0x60, 0x81, 0x4f, 0xdc, 0x22, 0x2a, 0x90, 0x88, 0x46, 0xee, 0xb8, 0x14, 0xde, 0x5e, 0x0b, 0xdb,
    0xe0, 0x32, 0x3a, 0x0a, 0x49, 0x06, 0x24, 0x5c, 0xc2, 0xd3, 0xac, 0x62, 0x91, 0x95, 0xe4, 0x79,
    0xe7, 0xc8, 0x37, 0x6d, 0x8d, 0xd5, 0x4e, 0xa9, 0x6c, 0x56, 0xf4, 0xea, 0x65, 0x7a, 0xae, 0x08,
    0xba, 0x78, 0x25, 0x2e, 0x1c, 0xa6, 0xb4, 0xc6, 0xe8, 0xdd, 0x74, 0x1f, 0x4b, 0xbd, 0x8b, 0x8a,
    0x70, 0x3e, 0xb5, 0x66, 0x48, 0x03, 0xf6, 0x0e, 0x61, 0x35, 0x57, 0xb9, 0x86, 0xc1, 0x1d, 0x9e,
    0xe1, 0xf8, 0x98, 0x11, 0x69, 0xd9, 0x8e, 0x94, 0x9b, 0x1e, 0x87, 0xe9, 0xce, 0x55, 0x28, 0xdf,
    0x8c, 0xa1, 0x89, 0x0d, 0xbf, 0xe6, 0x42, 0x68, 0x41, 0x99, 0x2d, 0x0f, 0xb0, 0x54, 0xbb, 0x16]

def inverseSubstitution : Array UInt32 :=
  #[0x52, 0x09, 0x6a, 0xd5, 0x30, 0x36, 0xa5, 0x38, 0xbf, 0x40, 0xa3, 0x9e, 0x81, 0xf3, 0xd7, 0xfb,
    0x7c, 0xe3, 0x39, 0x82, 0x9b, 0x2f, 0xff, 0x87, 0x34, 0x8e, 0x43, 0x44, 0xc4, 0xde, 0xe9, 0xcb,
    0x54, 0x7b, 0x94, 0x32, 0xa6, 0xc2, 0x23, 0x3d, 0xee, 0x4c, 0x95, 0x0b, 0x42, 0xfa, 0xc3, 0x4e,
    0x08, 0x2e, 0xa1, 0x66, 0x28, 0xd9, 0x24, 0xb2, 0x76, 0x5b, 0xa2, 0x49, 0x6d, 0x8b, 0xd1, 0x25,
    0x72, 0xf8, 0xf6, 0x64, 0x86, 0x68, 0x98, 0x16, 0xd4, 0xa4, 0x5c, 0xcc, 0x5d, 0x65, 0xb6, 0x92,
    0x6c, 0x70, 0x48, 0x50, 0xfd, 0xed, 0xb9, 0xda, 0x5e, 0x15, 0x46, 0x57, 0xa7, 0x8d, 0x9d, 0x84,
    0x90, 0xd8, 0xab, 0x00, 0x8c, 0xbc, 0xd3, 0x0a, 0xf7, 0xe4, 0x58, 0x05, 0xb8, 0xb3, 0x45, 0x06,
    0xd0, 0x2c, 0x1e, 0x8f, 0xca, 0x3f, 0x0f, 0x02, 0xc1, 0xaf, 0xbd, 0x03, 0x01, 0x13, 0x8a, 0x6b,
    0x3a, 0x91, 0x11, 0x41, 0x4f, 0x67, 0xdc, 0xea, 0x97, 0xf2, 0xcf, 0xce, 0xf0, 0xb4, 0xe6, 0x73,
    0x96, 0xac, 0x74, 0x22, 0xe7, 0xad, 0x35, 0x85, 0xe2, 0xf9, 0x37, 0xe8, 0x1c, 0x75, 0xdf, 0x6e,
    0x47, 0xf1, 0x1a, 0x71, 0x1d, 0x29, 0xc5, 0x89, 0x6f, 0xb7, 0x62, 0x0e, 0xaa, 0x18, 0xbe, 0x1b,
    0xfc, 0x56, 0x3e, 0x4b, 0xc6, 0xd2, 0x79, 0x20, 0x9a, 0xdb, 0xc0, 0xfe, 0x78, 0xcd, 0x5a, 0xf4,
    0x1f, 0xdd, 0xa8, 0x33, 0x88, 0x07, 0xc7, 0x31, 0xb1, 0x12, 0x10, 0x59, 0x27, 0x80, 0xec, 0x5f,
    0x60, 0x51, 0x7f, 0xa9, 0x19, 0xb5, 0x4a, 0x0d, 0x2d, 0xe5, 0x7a, 0x9f, 0x93, 0xc9, 0x9c, 0xef,
    0xa0, 0xe0, 0x3b, 0x4d, 0xae, 0x2a, 0xf5, 0xb0, 0xc8, 0xeb, 0xbb, 0x3c, 0x83, 0x53, 0x99, 0x61,
    0x17, 0x2b, 0x04, 0x7e, 0xba, 0x77, 0xd6, 0x26, 0xe1, 0x69, 0x14, 0x63, 0x55, 0x21, 0x0c, 0x7d]

@[inline] def rotateRight (x n : UInt32) : UInt32 :=
  x >>> n ||| x <<< (32 - n)

/-- Doubles a byte in the field of AES. -/
def double (x : UInt32) : UInt32 :=
  let y := x <<< 1
  if y &&& 0x100 = 0 then y else y ^^^ 0x11b

/-- The column `(2x, x, x, 3x)` for each substituted byte. -/
def mixTable : Array UInt32 :=
  substitution.map fun x => double x <<< 24 ||| x <<< 16 ||| x <<< 8 ||| (double x ^^^ x)

/-- The column `(14x, 9x, 13x, 11x)` of a byte. -/
def unmixed (x : UInt32) : UInt32 :=
  let x2 := double x
  let x4 := double x2
  let x8 := double x4
  (x8 ^^^ x4 ^^^ x2) <<< 24 ||| (x8 ^^^ x) <<< 16 ||| (x8 ^^^ x4 ^^^ x) <<< 8 ||| (x8 ^^^ x2 ^^^ x)

def unmixTable : Array UInt32 :=
  inverseSubstitution.map unmixed

@[inline] def byte (w n : UInt32) : Nat := (w >>> n &&& 0xff).toNat

@[inline] def substitute (table : Array UInt32) (w : UInt32) : UInt32 :=
  table.getD (byte w 24) 0 <<< 24 ||| table.getD (byte w 16) 0 <<< 16 |||
    table.getD (byte w 8) 0 <<< 8 ||| table.getD (byte w 0) 0

def unmix (w : UInt32) : UInt32 :=
  unmixed (w >>> 24) ^^^ rotateRight (unmixed (w >>> 16 &&& 0xff)) 8 ^^^
    rotateRight (unmixed (w >>> 8 &&& 0xff)) 16 ^^^ rotateRight (unmixed (w &&& 0xff)) 24

structure Block where
  a : UInt32
  b : UInt32
  c : UInt32
  d : UInt32
deriving DecidableEq, Repr

def wordOf (x y z w : UInt8) : UInt32 :=
  x.toUInt32 <<< 24 ||| y.toUInt32 <<< 16 ||| z.toUInt32 <<< 8 ||| w.toUInt32

def wordBytes (w : UInt32) : Bytes :=
  [(w >>> 24).toUInt8, (w >>> 16).toUInt8, (w >>> 8).toUInt8, w.toUInt8]

namespace Block

def ofBytes : Bytes → Block
  | [a0, a1, a2, a3, b0, b1, b2, b3, c0, c1, c2, c3, d0, d1, d2, d3] =>
    ⟨wordOf a0 a1 a2 a3, wordOf b0 b1 b2 b3, wordOf c0 c1 c2 c3, wordOf d0 d1 d2 d3⟩
  | _ => ⟨0, 0, 0, 0⟩

def bytes (x : Block) : Bytes :=
  wordBytes x.a ++ wordBytes x.b ++ wordBytes x.c ++ wordBytes x.d

@[inline] def xor (x y : Block) : Block :=
  ⟨x.a ^^^ y.a, x.b ^^^ y.b, x.c ^^^ y.c, x.d ^^^ y.d⟩

end Block

/-- One column of a round: the top byte of `a`, the second of `b`, and so on. -/
@[inline] def mixColumn (table : Array UInt32) (a b c d k : UInt32) : UInt32 :=
  table.getD (byte a 24) 0 ^^^ rotateRight (table.getD (byte b 16) 0) 8 ^^^
    rotateRight (table.getD (byte c 8) 0) 16 ^^^ rotateRight (table.getD (byte d 0) 0) 24 ^^^ k

/-- One column of the last round, which does not mix. -/
@[inline] def lastColumn (table : Array UInt32) (a b c d k : UInt32) : UInt32 :=
  (table.getD (byte a 24) 0 <<< 24 ||| table.getD (byte b 16) 0 <<< 16 |||
    table.getD (byte c 8) 0 <<< 8 ||| table.getD (byte d 0) 0) ^^^ k

def encryptRounds : List Block → Block → Block
  | [], x => x
  | [k], x =>
    ⟨lastColumn substitution x.a x.b x.c x.d k.a, lastColumn substitution x.b x.c x.d x.a k.b,
      lastColumn substitution x.c x.d x.a x.b k.c, lastColumn substitution x.d x.a x.b x.c k.d⟩
  | k :: rest, x =>
    encryptRounds rest
      ⟨mixColumn mixTable x.a x.b x.c x.d k.a, mixColumn mixTable x.b x.c x.d x.a k.b,
        mixColumn mixTable x.c x.d x.a x.b k.c, mixColumn mixTable x.d x.a x.b x.c k.d⟩

def decryptRounds : List Block → Block → Block
  | [], x => x
  | [k], x =>
    ⟨lastColumn inverseSubstitution x.a x.d x.c x.b k.a,
      lastColumn inverseSubstitution x.b x.a x.d x.c k.b,
      lastColumn inverseSubstitution x.c x.b x.a x.d k.c,
      lastColumn inverseSubstitution x.d x.c x.b x.a k.d⟩
  | k :: rest, x =>
    decryptRounds rest
      ⟨mixColumn unmixTable x.a x.d x.c x.b k.a, mixColumn unmixTable x.b x.a x.d x.c k.b,
        mixColumn unmixTable x.c x.b x.a x.d k.c, mixColumn unmixTable x.d x.c x.b x.a k.d⟩

/-- The words of the key schedule, newest first, after `left` more of them. `size` is the number
of words in the key. -/
def expand (size : Nat) : Nat → UInt32 → Array UInt32 → Array UInt32
  | 0, _, words => words
  | left + 1, constant, words =>
    let i := words.size
    let last := words.getD (i - 1) 0
    let base := words.getD (i - size) 0
    if i % size = 0 then
      let t := substitute substitution (rotateRight last 24) ^^^ constant <<< 24
      expand size left (double constant) (words.push (base ^^^ t))
    else if 6 < size ∧ i % size = 4 then
      expand size left constant (words.push (base ^^^ substitute substitution last))
    else expand size left constant (words.push (base ^^^ last))

def keyWords (key : Bytes) : Array UInt32 :=
  ((chunks 4 key).map fun w =>
    match w with
    | [x, y, z, w] => wordOf x y z w
    | _ => 0).toArray

def roundKeys (key : Bytes) : List Block :=
  let size := key.length / 4
  let words := expand size (4 * (size + 7) - size) 1 (keyWords key)
  (List.range (size + 7)).map fun i =>
    ⟨words.getD (4 * i) 0, words.getD (4 * i + 1) 0, words.getD (4 * i + 2) 0, words.getD (4 * i + 3) 0⟩

/-- The round keys in the order of decryption; all but the first and the last are unmixed. -/
def inverseKeys (keys : List Block) : List Block :=
  match keys.reverse with
  | [] => []
  | k :: rest =>
    k :: (rest.dropLast.map fun x => ⟨unmix x.a, unmix x.b, unmix x.c, unmix x.d⟩) ++
      rest.drop (rest.length - 1)

def runRounds (rounds : List Block → Block → Block) (keys : List Block) (x : Block) : Block :=
  match keys with
  | [] => x
  | k :: rest => rounds rest (x.xor k)

def isKeyLength (n : Nat) : Bool := n = 16 || n = 24 || n = 32

structure Schedule where
  forward : List Block
  backward : List Block

def Schedule.ofKey (key : Bytes) : Schedule :=
  let keys := roundKeys key
  ⟨keys, inverseKeys keys⟩

def Schedule.encrypt (k : Schedule) (block : Bytes) : Bytes :=
  (runRounds encryptRounds k.forward (Block.ofBytes block)).bytes

def Schedule.decrypt (k : Schedule) (block : Bytes) : Bytes :=
  (runRounds decryptRounds k.backward (Block.ofBytes block)).bytes

theorem Block.length_bytes (x : Block) : x.bytes.length = 16 := rfl

theorem Schedule.length_encrypt (k : Schedule) (block : Bytes) : (k.encrypt block).length = 16 := rfl

theorem Schedule.length_decrypt (k : Schedule) (block : Bytes) : (k.decrypt block).length = 16 := rfl

end TokenSeal.Aes
