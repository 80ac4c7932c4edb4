import TokenSeal.Cipher.Aes
/-!
Cipher block chaining with padding: `n` bytes of value `n`, from one to sixteen, fill the last
block.
-/

namespace TokenSeal.Cbc

def blockLength : Nat := 16

def pad (text : Bytes) : Bytes :=
  let n := 16 - text.length % 16
  text ++ List.replicate n (UInt8.ofNat n)

def unpad? (padded : Bytes) : Option Bytes :=
  match padded.getLast? with
  | none => none
  | some last =>
    let n := last.toNat
    let kept := padded.length - n
    if 1 ≤ n ∧ n ≤ 16 ∧ n ≤ padded.length ∧ padded.drop kept = List.replicate n last then
      some (padded.take kept)
    else none

def encryptOnto (k : Aes.Schedule) : Bytes → List Bytes → List Bytes → Bytes
  | _, done, [] => done.reverse.flatten
  | previous, done, block :: rest =>
    let c := k.encrypt (Bytes.xor block previous)
    encryptOnto k c (c :: done) rest

def encrypt (k : Aes.Schedule) (iv text : Bytes) : Bytes :=
  encryptOnto k iv [] (chunks 16 (pad text))

def decryptOnto (k : Aes.Schedule) : Bytes → List Bytes → List Bytes → Bytes
  | _, done, [] => done.reverse.flatten
  | previous, done, block :: rest =>
    decryptOnto k block (Bytes.xor (k.decrypt block) previous :: done) rest

def decryptPadded (k : Aes.Schedule) (iv ciphertext : Bytes) : Bytes :=
  decryptOnto k iv [] (chunks 16 ciphertext)

end TokenSeal.Cbc
