import TokenSeal.Binding.Basic
import TokenSeal.Cipher.Cbc
import TokenSeal.Cipher.Gcm
import TokenSeal.Entropy
/-!
A key bound to a content cipher. Content is sealed under an IV together with associated data, and
opened only if the tag is right. Opening into a buffer leaves nothing there that was not
authenticated.
-/

namespace TokenSeal

structure Sealed where
  ciphertext : Bytes
  iv : Bytes
  tag : Bytes
deriving DecidableEq, Repr

structure Sealer where
  key : SecretKey
  algorithm : Algorithm
  cipher : ContentCipher

namespace Sealer

def bind (k : SecretKey) (a : Algorithm) : Except Fault Sealer := do
  checkBinding .contentEncryption k a
  match a.method with
  | .contentEncryption c => return ⟨k, a, c⟩
  | _ => throw (.familyMismatch a.code .contentEncryption)

/-! ### The two ciphers over plain keys -/

def sealGcm (key iv text aad : Bytes) : Except Fault (Bytes × Bytes) :=
  if Aes.isKeyLength key.length then .ok (Gcm.encrypt (Aes.Schedule.ofKey key) iv aad text)
  else .error (.invalidKey (.aesKeyLength "AES-GCM" key.length))

def openGcm? (key iv ciphertext tag aad : Bytes) : Option Bytes :=
  if iv.length = Gcm.ivLength ∧ tag.length = Gcm.tagLength ∧ Aes.isKeyLength key.length then
    Gcm.decrypt? (Aes.Schedule.ofKey key) iv aad ciphertext tag
  else none

/-- The first half of a key authenticates. -/
def macKey (key : Bytes) : Bytes := key.take (key.length / 2)

/-- The second half of a key enciphers. -/
def textKey (key : Bytes) : Bytes := key.drop (key.length / 2)

/-- What the tag of a chained ciphertext authenticates. The length of the associated data at the
end tells where it stops. -/
def macInput (aad iv ciphertext : Bytes) : Bytes :=
  aad ++ iv ++ ciphertext ++ Bytes.ofNat 8 (8 * aad.length)

def chainedTag (h : HashId) (length : Nat) (key aad iv ciphertext : Bytes) : Bytes :=
  (hmac h (macKey key) (macInput aad iv ciphertext)).take length

def sealChained (h : HashId) (tagLength : Nat) (key iv text aad : Bytes) :
    Except Fault (Bytes × Bytes) :=
  let k := textKey key
  if Aes.isKeyLength k.length then
    let ciphertext := Cbc.encrypt (Aes.Schedule.ofKey k) iv text
    .ok (ciphertext, chainedTag h tagLength key aad iv ciphertext)
  else .error (.invalidKey (.aesKeyLength "AES-CBC" k.length))

/-! ### Sealing -/

def sealWith (s : Sealer) (iv text aad : Bytes) : Except Fault Sealed := do
  if iv.length ≠ s.cipher.ivLength then throw (.encryption (.ivLength s.cipher.ivLength))
  match (← s.key.read).effective with
  | .symmetric key =>
    let (ciphertext, tag) ←
      match s.cipher with
      | .gcm _ => sealGcm key iv text aad
      | .cbcHmac _ h => sealChained h s.cipher.tagLength key iv text aad
    return ⟨ciphertext, iv, tag⟩
  | _ => throw .missingPrivateKey

def encrypt (s : Sealer) (text aad : Bytes) : Draw Fault Sealed := do
  let iv ← Draw.bytes s.cipher.ivLength
  Draw.ofExcept (s.sealWith iv text aad)

/-! ### Opening -/

/-- What comes of opening a ciphertext into a buffer. -/
inductive Opening where
  | untouched (cause : Fault)
  /-- The ciphertext's room was filled with zeros. -/
  | wiped
  /-- So many bytes of what was written are the content. -/
  | opened (written : Bytes) (length : Nat)

def openGcm (key : Bytes) (c : Sealed) (aad : Bytes) : Opening :=
  match openGcm? key c.iv c.ciphertext c.tag aad with
  | some text => .opened text text.length
  | none => .wiped

/-- The tag is checked before anything is deciphered. -/
def openChained (h : HashId) (key : Bytes) (c : Sealed) (aad : Bytes) : Opening :=
  if chainedTag h c.tag.length key aad c.iv c.ciphertext ≠ c.tag ∨ c.ciphertext = [] ∨
      c.ciphertext.length % Cbc.blockLength ≠ 0 then .untouched .integrity
  else if Aes.isKeyLength (textKey key).length then
    let padded := Cbc.decryptPadded (Aes.Schedule.ofKey (textKey key)) c.iv c.ciphertext
    match Cbc.unpad? padded with
    | some text => .opened padded text.length
    | none => .wiped
  else .wiped

/-- Opens a ciphertext into a buffer with so much room. -/
def openFor (s : Sealer) (c : Sealed) (aad : Bytes) (room : Nat) : Opening :=
  match s.key.read with
  | .error e => .untouched e
  | .ok m =>
    match m.effective with
    | .symmetric key =>
      if c.iv.length ≠ s.cipher.ivLength ∨ c.tag.length ≠ s.cipher.tagLength then
        .untouched .integrity
      else if room < c.ciphertext.length then
        .untouched (.format (.outputRoom room c.ciphertext.length))
      else
        match s.cipher with
        | .gcm _ => openGcm key c aad
        | .cbcHmac _ h => openChained h key c aad
    | _ => .untouched .integrity

/-- Opens a ciphertext into a buffer: the length of the content or a fault, and the buffer
afterwards. -/
def decryptInto (s : Sealer) (c : Sealed) (aad buffer : Bytes) : Except Fault Nat × Bytes :=
  match s.openFor c aad buffer.length with
  | .untouched e => (.error e, buffer)
  | .wiped =>
    (.error .integrity, Bytes.zeros c.ciphertext.length ++ buffer.drop c.ciphertext.length)
  | .opened written length => (.ok length, written ++ buffer.drop written.length)

def decrypt (s : Sealer) (c : Sealed) (aad : Bytes) : Except Fault Bytes :=
  let (result, buffer) := s.decryptInto c aad (Bytes.zeros c.ciphertext.length)
  result.map buffer.take

end Sealer

end TokenSeal
