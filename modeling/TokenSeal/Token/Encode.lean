import TokenSeal.Binding.Signer
import TokenSeal.Token.Compact
import TokenSeal.Token.Credentials
import TokenSeal.Token.Options
import TokenSeal.Token.Parameters
/-!
Making tokens. A signed token carries its payload in the open; an encrypted one carries it sealed
under a content key, with the header as associated data. With both kinds of credentials the signed
token becomes the payload of the encrypted one.
-/

namespace TokenSeal

/-- What every token of one issuer depends on: its options, the algorithms it knows, the keys of
its collections, the time and the deflater that compresses for it. -/
structure Issuer where
  options : Options
  known : Known
  rings : KeyRings
  now : Int
  deflate : Bytes → Bytes

namespace Issuer

/-- Adds the members asked for, unless they are set already, and the standard type. -/
def finishHeader (o : Options) (mandated extra : Header) : Header :=
  let h := mandated.addMissing extra
  match o.defaultTyp with
  | some typ => if h.contains "typ" then h else h.insert "typ" (.string typ)
  | none => h

def insertText (h : Header) (name : String) : Option String → Header
  | some text => h.insert name (.string text)
  | none => h

def segment (bytes : Bytes) : String := Base64Url.encode bytes

/-! ### Signed tokens -/

def signedHeader (i : Issuer) (s : Signer) (extra : Header) : Header :=
  finishHeader i.options
    (insertText (Header.empty.insert "alg" (.string s.algorithm.code)) "kid" s.key.id) extra

def signer (i : Issuer) (c : SigningCredentials) : Except Fault Signer :=
  c.source.bind i.rings Signer.bind .signature i.known c.algorithm i.now

def sign (i : Issuer) (payload : Bytes) (c : SigningCredentials) (extra : Header) :
    Draw TokenError String := do
  let signer ← Draw.ofExcept ((i.signer c).mapError .fault)
  let input := (i.signedHeader signer extra).toSegment ++ "." ++ segment payload
  let signature ← Draw.mapError .fault (signer.sign (Bytes.ofText input))
  return input ++ "." ++ segment signature

/-! ### Encrypted tokens -/

/-- The compressor for a code, bound to the empty key. -/
def compressor (o : Options) (known : Known) (code : String) : Except Fault Compressor :=
  known.bind fun all =>
    resolveWithKey (Compressor.bind o.maxDecompressedSize) .compression all code SecretKey.empty

/-- The compressor to use, if one is asked for that does anything. -/
def effectiveCompressor (i : Issuer) : Option String → Except Fault (Option Compressor)
  | none => .ok none
  | some code => do
    let c ← compressor i.options i.known code
    return if c.isIdentity then none else some c

/-- The members that an encrypted token has to have, in order. -/
def sealedMembers (w : KeyWrapper) (enc : Algorithm) (zip : Option Compressor)
    (cty : Option String) (parameters : WrapParameters) : Header :=
  let h := (Header.empty.insert "alg" (.string w.algorithm.code)).insert "enc" (.string enc.code)
  let h := insertText h "zip" (zip.map (·.algorithm.code))
  let h := insertText h "kid" w.key.id
  let h := insertText h "cty" cty
  h.setParameters parameters

/-- A content key is a key without an id. -/
def contentKey (bytes : Bytes) : SecretKey := SecretKey.make none (.symmetric bytes) {}

def compressed (i : Issuer) (zip : Option Compressor) (payload : Bytes) : Bytes :=
  match zip with
  | some c => c.compress payload i.deflate
  | none => payload

def sealContent (enc : Algorithm) (key text : Bytes) (header : String) : Draw Fault Sealed := do
  let sealer ← Draw.ofExcept (Sealer.bind (contentKey key) enc)
  sealer.encrypt text (Bytes.ofText header)

/-- An encrypted token for parts that are already resolved. -/
def sealWith (i : Issuer) (payload : Bytes) (enc : Algorithm) (w : KeyWrapper)
    (zip : Option Compressor) (cty : Option String) (extra : Header) : Draw Fault String := do
  let wrapped ← w.wrapNew enc
  let mandated := sealedMembers w enc zip cty wrapped.parameters
  let header := (finishHeader i.options mandated extra).toSegment
  let content ← sealContent enc wrapped.contentKey (i.compressed zip payload) header
  return joinDots [header, segment wrapped.encryptedKey, segment content.iv,
    segment content.ciphertext, segment content.tag]

def wrapper (i : Issuer) (c : EncryptingCredentials) : Except Fault KeyWrapper :=
  (c.source.bind i.rings (KeyWrapper.bind i.options.passwordLimits) .keyManagement i.known
    c.algorithm i.now).map (·.withParty c.party)

def encrypt (i : Issuer) (payload : Bytes) (c : EncryptingCredentials) (cty : Option String)
    (extra : Header) : Draw TokenError String :=
  Draw.mapError .fault do
    let enc ← Draw.ofExcept (i.known.find .contentEncryption c.encryption)
    let w ← Draw.ofExcept (i.wrapper c)
    let zip ← Draw.ofExcept (i.effectiveCompressor c.compression)
    i.sealWith payload enc w zip cty extra

/-! ### All tokens -/

/-- The content type of a token inside a token. -/
def nestedType : String := "JWT"

def encode (i : Issuer) (payload : Bytes) (c : Credentials) (extra : Header) :
    Draw TokenError String :=
  match c.signing, c.encrypting with
  | some s, none => i.sign payload s extra
  | none, some e => i.encrypt payload e none extra
  | some s, some e => do
    let inner ← i.sign payload s extra
    i.encrypt (Bytes.ofText inner) e (some nestedType) Header.empty
  | none, none => throw .missingCredentials

end Issuer

end TokenSeal
