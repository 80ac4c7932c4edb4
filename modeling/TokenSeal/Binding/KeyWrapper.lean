import TokenSeal.Binding.Sealer
import TokenSeal.Cipher.KeyWrap
import TokenSeal.Hash.Agreement
import TokenSeal.Key.Exchange
import TokenSeal.Key.Generate
import TokenSeal.Rsa.Oaep
/-!
A key bound to a key management algorithm, which gives the sender and the recipient of some content
the same content key. Either the content key is wrapped, or it is shared or agreed directly and
nothing but parameters travels.
-/

namespace TokenSeal

/-- Names of the two parties to an agreement. -/
structure PartyInfo where
  apu : Bytes := []
  apv : Bytes := []
deriving DecidableEq, Repr

/-- What the recipient needs besides the wrapped key. -/
inductive WrapParameters where
  | none
  | gcm (iv tag : Bytes)
  | agreement (epk : Jwk) (apu apv : Bytes)
  | password (salt : Bytes) (count : Nat)
deriving DecidableEq, Repr

structure WrappedKey where
  contentKey : Bytes
  encryptedKey : Bytes
  parameters : WrapParameters
deriving DecidableEq, Repr

/-- A text that shows the parameters, which travel in the open. -/
def WrapParameters.inspect : WrapParameters → String
  | none => "None"
  | gcm iv tag => Text.fields "Gcm" [("iv", Text.bytes iv), ("tag", Text.bytes tag)] false
  | agreement epk apu apv =>
    Text.fields "Ecdh" [("epk", epk.inspect), ("apu", Text.bytes apu), ("apv", Text.bytes apv)]
      false
  | password salt count =>
    Text.fields "Pbes2" [("salt", Text.bytes salt), ("count", toString count)] false

/-- A text that shows the parameters and the lengths of the keys, but no keys. -/
def WrappedKey.inspect (w : WrappedKey) : String :=
  Text.fields "WrappedKey" [("cek_len", toString w.contentKey.length),
    ("encrypted_key_len", toString w.encryptedKey.length), ("parameters", w.parameters.inspect)]
    false

/-- The text for inspection of a key without parameters, which is the same on every run. -/
def WrappedKey.inspect? (w : WrappedKey) : Option String :=
  if w.parameters = .none then some w.inspect else none

/-- How often a password is hashed when wrapping, and how often at most when unwrapping. -/
structure PasswordLimits where
  iterations : Nat
  maxIterations : Nat
deriving DecidableEq, Repr

namespace PasswordLimits

def standard : PasswordLimits := ⟨310000, 1000000⟩

/-- What is wrapped with so many iterations can be unwrapped too. -/
def make (iterations maxIterations : Nat) : PasswordLimits :=
  ⟨iterations, max maxIterations iterations⟩

end PasswordLimits

structure KeyWrapper where
  key : SecretKey
  algorithm : Algorithm
  method : KeyManagement
  limits : PasswordLimits
  party : PartyInfo

namespace KeyWrapper

def bind (limits : PasswordLimits) (k : SecretKey) (a : Algorithm) : Except Fault KeyWrapper := do
  checkBinding .keyManagement k a
  match a.method with
  | .keyManagement m => return ⟨k, a, m, limits, {}⟩
  | _ => throw (.familyMismatch a.code .keyManagement)

def withParty (w : KeyWrapper) (party : PartyInfo) : KeyWrapper := { w with party := party }

def isDirect (w : KeyWrapper) : Bool :=
  w.method = .direct || w.method = .agreement none

/-- The length of the content keys that a content encryption algorithm takes. -/
def contentKeyLength (enc : Algorithm) : Except Fault Nat :=
  match enc.method with
  | .contentEncryption c => .ok c.keyLength
  | _ => .error (.familyMismatch enc.code .contentEncryption)

/-! ### Keys and secrets -/

def symmetricKey (m : KeyMaterial) : Except Fault Bytes :=
  match m.effective with
  | .symmetric bytes => .ok bytes
  | other => .error (.keyTypeMismatch "symmetric key management" other.keyType)

def ecKey (m : KeyMaterial) : Except Fault EcKey :=
  match m.effective with
  | .pair (.ec k) => .ok k
  | other => .error (.keyTypeMismatch "ECDH-ES" other.keyType)

def wrapAes (kek key : Bytes) : Except Fault Bytes :=
  if !Aes.isKeyLength kek.length then .error (.invalidKey (.aesKeyLength "AES-KW" kek.length))
  else if key.length % 8 ≠ 0 then .error (.encryption .keyWrapLength)
  else .ok (KeyWrap.wrap (Aes.Schedule.ofKey kek) key)

def unwrapAes (kek wrapped : Bytes) : Except Fault Bytes :=
  if Aes.isKeyLength kek.length then
    match KeyWrap.unwrap? (Aes.Schedule.ofKey kek) wrapped with
    | some key => .ok key
    | none => .error .integrity
  else .error .integrity

/-- The salt of a password with the algorithm's code in front. A code has no zero byte, so the
first one ends it. -/
def saltInput (code : String) (salt : Bytes) : Bytes :=
  Bytes.ofText code ++ 0 :: salt

def passwordKey (h : HashId) (password : Bytes) (code : String) (salt : Bytes)
    (count length : Nat) : Bytes :=
  Pbkdf2.derive h password (saltInput code salt) count length

def ephemeralJwk (k : EcKey) : Jwk := SecretKey.exportEc k false { kty := "EC" }

def ephemeralCoordinate (member : String) : Option String → Except Fault Bytes
  | some text => Base64Url.decode text
  | none => .error (.format (.ephemeralCoordinate member))

/-- The key in an `epk` member. Bad members are format errors; a point that is not on the curve is
not told apart from a forgery. -/
def ephemeralKey (j : Jwk) : Except Fault EcKey := do
  if j.kty ≠ "EC" then throw (.format (.ephemeralKeyType j.kty))
  match j.crv.bind CurveId.ofName? with
  | none => throw (.format .ephemeralCurve)
  | some curve =>
    let x ← ephemeralCoordinate "x" j.x
    let y ← ephemeralCoordinate "y" j.y
    (EcKey.ofCoordinates curve x y).mapError fun _ => .integrity

/-- The abscissa of a multiple of a point, at full width. -/
def sharedSecret? {c : CurveId} (d : Nat) (p : Point c) : Option Bytes :=
  (p.mul? d).map fun q => Bytes.ofNat c.width q.x

/-- A fresh key on the recipient's curve, and the secret shared with the recipient. -/
def agreeFresh (recipient : EcKey) : Draw Fault (Bytes × Jwk) := do
  let fresh ← SecretKey.drawEcKey recipient.curve SecretKey.scalarAttempts
  match fresh.secret.bind fun d => sharedSecret? d recipient.point with
  | some z => return (z, ephemeralJwk fresh)
  | none => throw .integrity

/-- The secret that the recipient shares with an ephemeral key on the same curve. -/
def agreeWith (recipient ephemeral : EcKey) : Except Fault Bytes :=
  match recipient.secret with
  | none => .error .missingPrivateKey
  | some d =>
    if recipient.curve = ephemeral.curve then
      match sharedSecret? d ephemeral.point with
      | some z => .ok z
      | none => .error .integrity
    else .error .integrity

/-! ### Wrapping -/

def saltLength : Nat := 16

def wrapRsa (w : KeyWrapper) (h : HashId) (m : KeyMaterial) (contentKey : Bytes) :
    Draw Fault Bytes :=
  match m.effective with
  | .pair (.rsa k) => Draw.mapError (fun e => .encryption (.rsa e)) (Rsa.encrypt k h contentKey)
  | other => throw (.keyTypeMismatch w.algorithm.code other.keyType)

/-- The wrapped form of a content key, and the parameters to send with it. -/
def wrapMaterial (w : KeyWrapper) (m : KeyMaterial) (contentKey : Bytes) :
    Draw Fault (Bytes × WrapParameters) := do
  match w.method with
  | .direct => throw (.unsupported (.derivesContentKey w.algorithm.code))
  | .agreement none => throw (.unsupported (.derivesContentKey w.algorithm.code))
  | .aesWrap _ =>
    let kek ← Draw.ofExcept (symmetricKey m)
    let wrapped ← Draw.ofExcept (wrapAes kek contentKey)
    return (wrapped, .none)
  | .gcmWrap _ =>
    let iv ← Draw.bytes Gcm.ivLength
    let kek ← Draw.ofExcept (symmetricKey m)
    let (wrapped, tag) ← Draw.ofExcept (Sealer.sealGcm kek iv contentKey [])
    return (wrapped, .gcm iv tag)
  | .agreement (some bits) =>
    let recipient ← Draw.ofExcept (ecKey m)
    let (z, epk) ← agreeFresh recipient
    let kek := Agreement.derive z w.algorithm.code w.party.apu w.party.apv bits
    let wrapped ← Draw.ofExcept (wrapAes kek contentKey)
    return (wrapped, .agreement epk w.party.apu w.party.apv)
  | .password h bits =>
    let salt ← Draw.bytes saltLength
    let password ← Draw.ofExcept (symmetricKey m)
    let kek := passwordKey h password w.algorithm.code salt w.limits.iterations (bits / 8)
    let wrapped ← Draw.ofExcept (wrapAes kek contentKey)
    return (wrapped, .password salt w.limits.iterations)
  | .rsaOaep h =>
    let wrapped ← w.wrapRsa h m contentKey
    return (wrapped, .none)

def wrap (w : KeyWrapper) (contentKey : Bytes) (enc : Algorithm) : Draw Fault WrappedKey := do
  let length ← Draw.ofExcept (contentKeyLength enc)
  if contentKey.length ≠ length then throw (.invalidKeySize enc.code (8 * contentKey.length))
  let m ← Draw.ofExcept w.key.read
  let (encrypted, parameters) ← w.wrapMaterial m contentKey
  return ⟨contentKey, encrypted, parameters⟩

def shareDirectly (w : KeyWrapper) (enc : Algorithm) (length : Nat) : Except Fault WrappedKey := do
  let m ← w.key.read
  let key ← symmetricKey m
  if key.length ≠ length then throw (.invalidKeySize enc.code (8 * key.length))
  return ⟨key, [], .none⟩

def agreeDirectly (w : KeyWrapper) (enc : Algorithm) (length : Nat) : Draw Fault WrappedKey := do
  let m ← Draw.ofExcept w.key.read
  let recipient ← Draw.ofExcept (ecKey m)
  let (z, epk) ← agreeFresh recipient
  return ⟨Agreement.derive z enc.code w.party.apu w.party.apv (8 * length), [],
    .agreement epk w.party.apu w.party.apv⟩

/-- A new content key for a content encryption algorithm, wrapped. -/
def wrapNew (w : KeyWrapper) (enc : Algorithm) : Draw Fault WrappedKey := do
  let length ← Draw.ofExcept (contentKeyLength enc)
  match w.method with
  | .direct => Draw.ofExcept (w.shareDirectly enc length)
  | .agreement none => w.agreeDirectly enc length
  | _ =>
    let contentKey ← Draw.bytes length
    w.wrap contentKey enc

/-! ### Unwrapping -/

def minSaltLength : Nat := 8

def unwrapAgreed (w : KeyWrapper) (wrapBits : Option Nat) (m : KeyMaterial) (encrypted : Bytes)
    (parameters : WrapParameters) (enc : Algorithm) (length : Nat) : Except Fault Bytes :=
  match parameters with
  | .agreement epk apu apv => do
    let recipient ← ecKey m
    let ephemeral ← ephemeralKey epk
    let z ← agreeWith recipient ephemeral
    match wrapBits with
    | none =>
      if encrypted ≠ [] then throw .integrity
      return Agreement.derive z enc.code apu apv (8 * length)
    | some bits => unwrapAes (Agreement.derive z w.algorithm.code apu apv bits) encrypted
  | _ => .error (.format .missingEphemeralKey)

def unwrapWithPassword (w : KeyWrapper) (h : HashId) (wrapBits : Nat) (m : KeyMaterial)
    (encrypted : Bytes) (parameters : WrapParameters) : Except Fault Bytes :=
  match parameters with
  | .password salt count => do
    if count = 0 ∨ w.limits.maxIterations < count then
      throw (.format (.iterationCount w.limits.maxIterations))
    if salt.length < minSaltLength then throw (.format .shortSalt)
    let password ← symmetricKey m
    unwrapAes (passwordKey h password w.algorithm.code salt count (wrapBits / 8)) encrypted
  | _ => .error (.format .missingPasswordParameters)

/-- A ciphertext that does not decrypt to a key of the right length gives a random key, so that it
cannot be told from a wrong tag on the content. -/
def unwrapRsa (h : HashId) (m : KeyMaterial) (encrypted : Bytes) (length : Nat) :
    Draw Fault Bytes :=
  match m.effective with
  | .pair (.rsa k) =>
    match k.secret with
    | none => throw .missingPrivateKey
    | some s =>
      match Rsa.decrypt? k s h encrypted with
      | some key => if key.length = length then return key else Draw.bytes length
      | none => Draw.bytes length
  | _ => throw .integrity

def unwrapMaterial (w : KeyWrapper) (m : KeyMaterial) (encrypted : Bytes)
    (parameters : WrapParameters) (enc : Algorithm) (length : Nat) : Draw Fault Bytes :=
  match w.method with
  | .direct =>
    if encrypted ≠ [] then throw .integrity else Draw.ofExcept (symmetricKey m)
  | .aesWrap _ => Draw.ofExcept ((symmetricKey m).bind (unwrapAes · encrypted))
  | .gcmWrap _ =>
    match parameters with
    | .gcm iv tag => Draw.ofExcept do
        let kek ← symmetricKey m
        match Sealer.openGcm? kek iv encrypted tag [] with
        | some key => return key
        | none => throw .integrity
    | _ => throw (.format .missingGcmParameters)
  | .agreement bits => Draw.ofExcept (w.unwrapAgreed bits m encrypted parameters enc length)
  | .password h bits => Draw.ofExcept (w.unwrapWithPassword h bits m encrypted parameters)
  | .rsaOaep h => unwrapRsa h m encrypted length

/-- The content key that was wrapped; it has the length that the content encryption takes. -/
def unwrap (w : KeyWrapper) (encrypted : Bytes) (parameters : WrapParameters) (enc : Algorithm) :
    Draw Fault Bytes := do
  let length ← Draw.ofExcept (contentKeyLength enc)
  let m ← Draw.ofExcept w.key.read
  let key ← w.unwrapMaterial m encrypted parameters enc length
  if key.length ≠ length then throw .integrity
  return key

end KeyWrapper

end TokenSeal
