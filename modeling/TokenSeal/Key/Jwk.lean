import TokenSeal.Hash.Digest
import TokenSeal.Json.Fields
import TokenSeal.Text.Base64Url
import TokenSeal.Text.Literal
/-!
JSON Web Keys: fifteen members with texts, in JSON and out of it; the public part; and the
thumbprint, a hash over the members that make up the key.
-/

namespace TokenSeal

structure Jwk where
  kty : String
  kid : Option String := none
  alg : Option String := none
  use : Option String := none
  k : Option String := none
  crv : Option String := none
  x : Option String := none
  y : Option String := none
  d : Option String := none
  n : Option String := none
  e : Option String := none
  p : Option String := none
  q : Option String := none
  x5c : Option (List String) := none
  x5tS256 : Option String := none
deriving DecidableEq, Repr

namespace Jwk

/-- The names of the members, in the order in which they are written. -/
def memberNames : List String :=
  ["kty", "kid", "alg", "use", "k", "crv", "x", "y", "d", "n", "e", "p", "q", "x5c", "x5t#S256"]

def textMember (name : String) (value : Option String) : Members :=
  (value.map fun s => (name, Json.string s)).toList

def members (j : Jwk) : Members :=
  ("kty", Json.string j.kty) :: textMember "kid" j.kid ++ textMember "alg" j.alg ++
    textMember "use" j.use ++ textMember "k" j.k ++ textMember "crv" j.crv ++ textMember "x" j.x ++
    textMember "y" j.y ++ textMember "d" j.d ++ textMember "n" j.n ++ textMember "e" j.e ++
    textMember "p" j.p ++ textMember "q" j.q ++
    (j.x5c.map fun chain => ("x5c", Json.array (chain.map .string))).toList ++
    textMember "x5t#S256" j.x5tS256

def toJson (j : Jwk) : Json := .object j.members

def render (j : Jwk) : String := j.toJson.render

/-- Reads the members; all but the first may be missing or null. -/
def ofFields? (fields : Fields) : Option Jwk := do
  match ← fields.slots? memberNames with
  | [kty, kid, alg, use, k, crv, x, y, d, n, e, p, q, x5c, x5tS256] =>
    let text := Slot.optional Json.asString?
    return {
      kty := ← kty.required Json.asString?, kid := ← text kid, alg := ← text alg, use := ← text use,
      k := ← text k, crv := ← text crv, x := ← text x, y := ← text y, d := ← text d, n := ← text n,
      e := ← text e, p := ← text p, q := ← text q, x5c := ← x5c.optional Json.asStrings?,
      x5tS256 := ← text x5tS256 }
  | _ => none

def ofText? (text : String) : Option Jwk := (Fields.ofText? text).bind ofFields?

def ofJson? (v : Json) : Option Jwk := (Fields.ofJson? v).bind ofFields?

def isPrivate (j : Jwk) : Bool := j.k.isSome || j.d.isSome

def toPublic (j : Jwk) : Jwk := { j with k := none, d := none, p := none, q := none }

/-- A member that the key type calls for. -/
def required (member : String) : Option String → Except Fault String
  | some s => .ok s
  | none => .error (.invalidKey (.jwkMissing member))

/-- The text that a thumbprint hashes: the members that make up the key, by name, without
escapes. -/
def thumbprintText (j : Jwk) : Except Fault String :=
  if j.kty = "EC" then do
    let crv ← required "crv" j.crv
    let x ← required "x" j.x
    let y ← required "y" j.y
    return "\x7b\"crv\":\"" ++ crv ++ "\",\"kty\":\"EC\",\"x\":\"" ++ x ++ "\",\"y\":\"" ++ y ++ "\"\x7d"
  else if j.kty = "RSA" then do
    let e ← required "e" j.e
    let n ← required "n" j.n
    return "\x7b\"e\":\"" ++ e ++ "\",\"kty\":\"RSA\",\"n\":\"" ++ n ++ "\"\x7d"
  else if j.kty = "oct" then do
    let k ← required "k" j.k
    return "\x7b\"k\":\"" ++ k ++ "\",\"kty\":\"oct\"\x7d"
  else throw (.unsupported (.jwkKeyType j.kty))

def thumbprint (j : Jwk) : Except Fault String :=
  j.thumbprintText.map fun text => Base64Url.encode (HashId.sha256.digest (Bytes.ofText text))

/-- A text that shows what names the key but no secrets. -/
def inspect (j : Jwk) : String :=
  let shown (s : Option String) : String := Text.optional (s.map Text.literal)
  Text.fields "Jwk" [("kty", Text.literal j.kty), ("kid", shown j.kid), ("alg", shown j.alg),
    ("crv", shown j.crv), ("private", toString j.isPrivate)] true

end Jwk

end TokenSeal
