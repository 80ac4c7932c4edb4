import TokenSeal.Bytes
import TokenSeal.Token.Error
/-!
The compact form of tokens: segments with dots between them, three for a signed token and five for
an encrypted one.
-/

namespace TokenSeal

/-- Splits a text at its dots; `part` holds the current piece and `done` the ones before it, both
in reverse. -/
def splitDotsOnto : List (List Char) → List Char → List Char → List (List Char)
  | done, part, [] => (part.reverse :: done).reverse
  | done, part, c :: rest =>
    if c = '.' then splitDotsOnto (part.reverse :: done) [] rest
    else splitDotsOnto done (c :: part) rest

def splitDots (text : String) : List String :=
  (splitDotsOnto [] [] text.toList).map String.ofList

def joinDots (segments : List String) : String :=
  ".".intercalate segments

structure SignedParts where
  header : String
  payload : String
  signature : String
deriving DecidableEq, Repr

/-- The part of a signed token that is signed: all before its last dot. -/
def SignedParts.signingInput (p : SignedParts) : String := p.header ++ "." ++ p.payload

structure SealedParts where
  header : String
  encryptedKey : String
  iv : String
  ciphertext : String
  tag : String
deriving DecidableEq, Repr

inductive CompactToken where
  | signed (parts : SignedParts)
  | encrypted (parts : SealedParts)
deriving DecidableEq, Repr

namespace CompactToken

def parse (token : String) : Except TokenError CompactToken :=
  match splitDots token with
  | [header, payload, signature] => .ok (signed ⟨header, payload, signature⟩)
  | [header, encryptedKey, iv, ciphertext, tag] =>
    .ok (encrypted ⟨header, encryptedKey, iv, ciphertext, tag⟩)
  | segments => .error (.malformed (.segmentCount segments.length))

def header : CompactToken → String
  | signed p => p.header
  | encrypted p => p.header

def isEncrypted : CompactToken → Bool
  | signed _ => false
  | encrypted _ => true

def segments : CompactToken → List String
  | signed p => [p.header, p.payload, p.signature]
  | encrypted p => [p.header, p.encryptedKey, p.iv, p.ciphertext, p.tag]

end CompactToken

end TokenSeal
