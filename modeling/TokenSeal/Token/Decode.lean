import TokenSeal.Token.Encode
/-!
Reading tokens. A token is first checked for its form and its header, then opened with the keys
that may fit, in order. If one of them opens it, the others do not matter; if none does, the answer
does not tell why.
-/

namespace TokenSeal

structure DecodedToken where
  header : Header
  payload : Bytes
  /-- The id of the key that opened the token. -/
  keyId : Option String
  /-- The header of the encrypted token around this one. -/
  outerHeader : Option Header := none

namespace DecodedToken

def isNested (t : DecodedToken) : Bool := t.outerHeader.isSome

def payloadText (t : DecodedToken) : Except TokenError String :=
  match Bytes.toText? t.payload with
  | some text => .ok text
  | none => .error (.malformed .payloadText)

/-- A text that shows headers and lengths. -/
def inspect (t : DecodedToken) : String :=
  Text.fields "DecodedToken" [("header", t.header.inspect),
    ("payload_len", toString t.payload.length),
    ("key_id", Text.optional (t.keyId.map Text.literal)),
    ("outer_header", Text.optional (t.outerHeader.map (·.inspect)))] false

end DecodedToken

/-! ### Screening -/

/-- A signed token whose header is in order. -/
structure ScreenedSigned where
  parts : SignedParts
  header : Header
  alg : String

/-- An encrypted token whose header is in order. -/
structure ScreenedSealed where
  parts : SealedParts
  header : Header
  alg : String
  enc : String

inductive Screened where
  | signed (token : ScreenedSigned)
  | encrypted (token : ScreenedSealed)

namespace Options

/-- Every name that has to be understood is. -/
def checkCritical (o : Options) (h : Header) : Except TokenError Unit := do
  match (← h.critical).find? (· ∉ o.criticalHeaders) with
  | some name => throw (.malformed (.criticalUnknown name))
  | none => return ()

def requireText (name : String) : Option String → Except TokenError String
  | some text => .ok text
  | none => .error (.malformed (.missing name))

def unsecuredCode : String := "none"

def screenSigned (o : Options) (p : SignedParts) : Except TokenError ScreenedSigned := do
  let h ← Header.ofSegment p.header
  o.checkCritical h
  let alg ← requireText "alg" h.alg?
  if alg = unsecuredCode ∧ !o.allowUnsecured then throw .unsecuredRejected
  return ⟨p, h, alg⟩

def screenSealed (o : Options) (p : SealedParts) : Except TokenError ScreenedSealed := do
  let h ← Header.ofSegment p.header
  o.checkCritical h
  let alg ← requireText "alg" h.alg?
  let enc ← requireText "enc" h.enc?
  return ⟨p, h, alg, enc⟩

/-- Checks what can be checked of a token without looking up algorithms or keys. -/
def screen (o : Options) (token : String) : Except TokenError Screened := do
  if o.maxTokenLength < token.utf8ByteSize then throw (.malformed (.tokenLength o.maxTokenLength))
  match ← CompactToken.parse token with
  | .signed p => return .signed (← o.screenSigned p)
  | .encrypted p => return .encrypted (← o.screenSealed p)

end Options

/-! ### Opening -/

/-- The verdict when no candidate opened a token: that of the binding only if no candidate could
be bound. -/
def verdict (bindingFault : Option Fault) (attempted : Bool) : TokenError :=
  match bindingFault, attempted with
  | some e, false => .fault e
  | _, _ => .integrity

structure Recipient where
  options : Options
  known : Known
  keys : List SecretKey

namespace Recipient

/-- The candidates for a token, of which there must be one. -/
def keysFor (r : Recipient) (a : Algorithm) (code : String) (h : Header) :
    Except TokenError (List SecretKey) :=
  match candidates a r.keys ⟨h.kid?, .decode⟩ with
  | [] => .error (.fault (.noMatchingKey code))
  | keys => .ok keys

def bytesOf (segment : String) : Except TokenError Bytes :=
  (Base64Url.decode segment).mapError .fault

/-- The first key that verifies a signature. -/
def verifying (a : Algorithm) (input signature : Bytes) :
    Option Fault → Bool → List SecretKey → Except TokenError SecretKey
  | bindingFault, attempted, [] => .error (verdict bindingFault attempted)
  | bindingFault, attempted, k :: rest =>
    match Signer.bind k a with
    | .error e => verifying a input signature (some e) attempted rest
    | .ok s =>
      match s.verify input signature with
      | .ok true => .ok k
      | _ => verifying a input signature bindingFault true rest

def openSigned (r : Recipient) (t : ScreenedSigned) : Except TokenError DecodedToken := do
  let a ← (r.known.find .signature t.alg).mapError .fault
  let signature ← bytesOf t.parts.signature
  let payload ← bytesOf t.parts.payload
  let keys ← r.keysFor a t.alg t.header
  let k ← verifying a (Bytes.ofText t.parts.signingInput) signature none false keys
  return ⟨t.header, payload, k.id, none⟩

/-- An encrypted token with everything resolved but the key. -/
structure Parcel where
  algorithm : Algorithm
  enc : Algorithm
  limits : PasswordLimits
  parameters : WrapParameters
  encryptedKey : Bytes
  content : Sealed
  aad : Bytes

def Parcel.contentUnder (p : Parcel) (contentKey : Bytes) : Except Fault Bytes := do
  let sealer ← Sealer.bind (Issuer.contentKey contentKey) p.enc
  sealer.decrypt p.content p.aad

/-- The first key that opens a parcel, and what is in it. Parameters of the wrong form are wrong
for every key, so they end the search. -/
def opening (p : Parcel) :
    Option Fault → Bool → List SecretKey → Draw TokenError (SecretKey × Bytes)
  | bindingFault, attempted, [] => throw (verdict bindingFault attempted)
  | bindingFault, attempted, k :: rest =>
    match KeyWrapper.bind p.limits k p.algorithm with
    | .error e => opening p (some e) attempted rest
    | .ok w => fun entropy =>
      match w.unwrap p.encryptedKey p.parameters p.enc entropy with
      | (.error e, entropy) =>
        if e.kind = .format then (.error (.fault e), entropy)
        else opening p bindingFault true rest entropy
      | (.ok contentKey, entropy) =>
        match p.contentUnder contentKey with
        | .ok text => (.ok (k, text), entropy)
        | .error _ => opening p bindingFault true rest entropy

def managementOf (a : Algorithm) (code : String) : Except Fault KeyManagement :=
  match a.method with
  | .keyManagement m => .ok m
  | _ => .error (.familyMismatch code .keyManagement)

/-- Resolves everything about an encrypted token but the key. -/
def parcelOf (r : Recipient) (t : ScreenedSealed) :
    Except TokenError (Parcel × Option Compressor) := do
  let a ← (r.known.find .keyManagement t.alg).mapError .fault
  let enc ← (r.known.find .contentEncryption t.enc).mapError .fault
  let zip ← (t.header.zip?.mapM (Issuer.compressor r.options r.known)).mapError .fault
  let method ← (managementOf a t.alg).mapError .fault
  let parameters ← t.header.parameters method
  let encryptedKey ← bytesOf t.parts.encryptedKey
  let iv ← bytesOf t.parts.iv
  let ciphertext ← bytesOf t.parts.ciphertext
  let tag ← bytesOf t.parts.tag
  return (⟨a, enc, r.options.passwordLimits, parameters, encryptedKey, ⟨ciphertext, iv, tag⟩,
    Bytes.ofText t.parts.header⟩, zip)

def expanded (zip : Option Compressor) (text : Bytes) : Except Fault Bytes :=
  match zip with
  | some c => c.decompress text
  | none => .ok text

def openSealed (r : Recipient) (t : ScreenedSealed) : Draw TokenError DecodedToken := do
  let (p, zip) ← Draw.ofExcept (r.parcelOf t)
  let keys ← Draw.ofExcept (r.keysFor p.algorithm t.alg t.header)
  let (k, text) ← opening p none false keys
  let payload ← Draw.ofExcept ((expanded zip text).mapError .fault)
  return ⟨t.header, payload, k.id, none⟩

/-- Opens the signed token inside an encrypted one. -/
def openNested (r : Recipient) (outer : DecodedToken) : Except TokenError DecodedToken := do
  match Bytes.toText? outer.payload with
  | none => throw (.malformed .nestedText)
  | some text =>
    match ← CompactToken.parse text with
    | .encrypted _ => throw (.malformed .nestedForm)
    | .signed p =>
      let t ← r.options.screenSigned p
      let inner ← r.openSigned t
      return { inner with outerHeader := some outer.header }

def openScreened (r : Recipient) : Screened → Draw TokenError DecodedToken
  | .signed t => Draw.ofExcept (r.openSigned t)
  | .encrypted t => do
    let outer ← r.openSealed t
    if r.options.unwrapNested ∧ outer.header.isNested then Draw.ofExcept (r.openNested outer)
    else return outer

def decode (r : Recipient) (token : String) : Draw TokenError DecodedToken := do
  let t ← Draw.ofExcept (r.options.screen token)
  r.openScreened t

end Recipient

end TokenSeal
