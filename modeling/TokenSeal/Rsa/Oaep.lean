import TokenSeal.Rsa.Signature
/-!
RSA encryption of short messages. A random seed masks the message behind a fixed digest and a run
of zeros, and the result masks the seed.
-/

namespace TokenSeal.Rsa

/-- The masked block of `width` bytes for a message. -/
def oaepBlock? (h : HashId) (width : Nat) (seed message : Bytes) : Option Bytes :=
  if width < message.length + 2 * h.size + 2 then none
  else
    let room := width - h.size - 1
    let body := h.digest [] ++ Bytes.zeros (room - h.size - message.length - 1) ++ 1 :: message
    let masked := Bytes.xor body (mask h seed room)
    some (0 :: Bytes.xor seed (mask h masked h.size) ++ masked)

def oaepMessage? (h : HashId) (block : Bytes) : Option Bytes :=
  match block with
  | 0 :: rest =>
    let masked := rest.drop h.size
    let seed := Bytes.xor (rest.take h.size) (mask h masked h.size)
    let body := Bytes.xor masked (mask h seed masked.length)
    if body.take h.size ≠ h.digest [] then none
    else
      match (body.drop h.size).dropWhile (· = 0) with
      | 1 :: message => some message
      | _ => none
  | _ => none

def encrypt (k : RsaKey) (h : HashId) (message : Bytes) : Draw RsaFault Bytes := do
  let seed ← Draw.bytes h.size
  match oaepBlock? h k.width seed message with
  | none => throw .messageTooLong
  | some block => return Bytes.ofNat k.width (k.applyPublic (Bytes.toNat block))

/-- The message that was encrypted, if the ciphertext is one. -/
def decrypt? (k : RsaKey) (s : RsaSecret) (h : HashId) (ciphertext : Bytes) : Option Bytes :=
  let c := Bytes.toNat ciphertext
  if ciphertext.length ≠ k.width ∨ k.width < 2 * h.size + 2 ∨ k.modulus ≤ c then none
  else
    match k.applySecret s c with
    | .ok m => oaepMessage? h (Bytes.ofNat k.width m)
    | .error _ => none

end TokenSeal.Rsa
