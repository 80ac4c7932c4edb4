import TokenSeal.Fault
import TokenSeal.Text.Base64
/-!
Base64url without padding, as every segment of a token is written: lengths, encoding and strict
decoding, and both of them into a buffer that is already there.
-/

namespace TokenSeal.Base64Url

/-- How many characters `n` bytes take. -/
def encodedLength (n : Nat) : Nat := (n * 4 + 2) / 3

/-- How many bytes `n` characters stand for; one more than a multiple of four is no length. -/
def decodedLength (n : Nat) : Except Fault Nat :=
  if n % 4 = 1 then .error (.format (.base64Length n)) else .ok (n * 3 / 4)

def encode (bytes : Bytes) : String :=
  String.ofList (Base64.encodeChars .urlSafe bytes)

def decode (text : String) : Except Fault Bytes := do
  let _ ← decodedLength text.utf8ByteSize
  match Base64.decodeChars? .urlSafe text.toList with
  | some bytes => return bytes
  | none => throw (.format .base64Text)

def overwrite (buffer written : Bytes) : Bytes :=
  written ++ buffer.drop written.length

/-- The text, and the buffer with the text at its front. -/
def encodeInto (bytes buffer : Bytes) : Except Fault (String × Bytes) :=
  let needed := encodedLength bytes.length
  if buffer.length < needed then .error (.format (.base64Room buffer.length needed))
  else
    let text := encode bytes
    .ok (text, overwrite buffer (Bytes.ofText text))

/-- The bytes, and the buffer with the bytes at its front. -/
def decodeInto (text : String) (buffer : Bytes) : Except Fault (Bytes × Bytes) := do
  let needed ← decodedLength text.utf8ByteSize
  if buffer.length < needed then throw (.format (.base64Room buffer.length needed))
  let bytes ← decode text
  return (bytes, overwrite buffer bytes)

end TokenSeal.Base64Url
