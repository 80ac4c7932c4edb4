import TokenSeal.Bytes
/-!
The two base-64 alphabets. Six bits make one character, a last group of one or two bytes makes
two or three, and the bits it leaves over must be zero. So each byte string has one spelling, and
decoding refuses every other text.
-/

namespace TokenSeal.Base64

inductive Alphabet where
  | urlSafe
  | standard
deriving DecidableEq, Repr

namespace Alphabet

def char62 : Alphabet → Char
  | urlSafe => '-'
  | standard => '+'

def char63 : Alphabet → Char
  | urlSafe => '_'
  | standard => '/'

def symbol (a : Alphabet) (v : UInt8) : Char :=
  if v < 26 then Char.ofNat (65 + v.toNat)
  else if v < 52 then Char.ofNat (71 + v.toNat)
  else if v < 62 then Char.ofNat (v.toNat - 4)
  else if v = 62 then a.char62
  else a.char63

def value? (a : Alphabet) (c : Char) : Option UInt8 :=
  if 'A' ≤ c ∧ c ≤ 'Z' then some (UInt8.ofNat (c.toNat - 65))
  else if 'a' ≤ c ∧ c ≤ 'z' then some (UInt8.ofNat (c.toNat - 71))
  else if '0' ≤ c ∧ c ≤ '9' then some (UInt8.ofNat (c.toNat + 4))
  else if c = a.char62 then some 62
  else if c = a.char63 then some 63
  else none

end Alphabet

def encodeOnto (a : Alphabet) : List Char → Bytes → List Char
  | done, x :: y :: z :: rest =>
    encodeOnto a
      (a.symbol (z &&& 63) :: a.symbol ((y &&& 15) <<< 2 ||| z >>> 6)
        :: a.symbol ((x &&& 3) <<< 4 ||| y >>> 4) :: a.symbol (x >>> 2) :: done) rest
  | done, [x, y] =>
    (a.symbol ((y &&& 15) <<< 2) :: a.symbol ((x &&& 3) <<< 4 ||| y >>> 4)
      :: a.symbol (x >>> 2) :: done).reverse
  | done, [x] => (a.symbol ((x &&& 3) <<< 4) :: a.symbol (x >>> 2) :: done).reverse
  | done, [] => done.reverse

def encodeChars (a : Alphabet) (bytes : Bytes) : List Char :=
  encodeOnto a [] bytes

def decodeOnto (a : Alphabet) : Bytes → List Char → Option Bytes
  | done, c₁ :: c₂ :: c₃ :: c₄ :: rest =>
    match a.value? c₁, a.value? c₂, a.value? c₃, a.value? c₄ with
    | some p, some q, some r, some s =>
      decodeOnto a ((r <<< 6 ||| s) :: (q <<< 4 ||| r >>> 2) :: (p <<< 2 ||| q >>> 4) :: done) rest
    | _, _, _, _ => none
  | done, [c₁, c₂, c₃] =>
    match a.value? c₁, a.value? c₂, a.value? c₃ with
    | some p, some q, some r =>
      if r &&& 3 = 0 then some ((q <<< 4 ||| r >>> 2) :: (p <<< 2 ||| q >>> 4) :: done).reverse
      else none
    | _, _, _ => none
  | done, [c₁, c₂] =>
    match a.value? c₁, a.value? c₂ with
    | some p, some q =>
      if q &&& 15 = 0 then some ((p <<< 2 ||| q >>> 4) :: done).reverse else none
    | _, _ => none
  | _, [_] => none
  | done, [] => some done.reverse

def decodeChars? (a : Alphabet) (text : List Char) : Option Bytes :=
  decodeOnto a [] text

/-- The padded spelling in the standard alphabet, a multiple of four characters long. -/
def encodePadded (bytes : Bytes) : String :=
  let chars := encodeChars .standard bytes
  String.ofList (chars ++ List.replicate ((4 - chars.length % 4) % 4) '=')

/-- Removes one or two padding characters from the end. -/
def unpad (text : List Char) : List Char :=
  match text.reverse with
  | '=' :: '=' :: rest => rest.reverse
  | '=' :: rest => rest.reverse
  | _ => text

/-- Reads a padded spelling in the standard alphabet. -/
def decodePadded? (text : String) : Option Bytes :=
  if text.utf8ByteSize % 4 = 0 then decodeChars? .standard (unpad text.toList) else none

end TokenSeal.Base64
