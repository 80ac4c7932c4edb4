import TokenSeal.Proofs.Base64Codec
import TokenSeal.Proofs.KeyExchange
import TokenSeal.Proofs.Signatures

/-! A thumbprint is a hash of the JSON text of the members that make up a key. One key can be
spelled in several ways, with zeros in front of its numbers, and each way has its own thumbprint.
Keys that are spelled as they are exported have one thumbprint exactly if they are the same. -/

namespace TokenSeal

open SecretKey (bytesText)

/-! ### Texts without escapes -/

theorem Base64.escape_symbol (a : Alphabet) (v : UInt8) :
    Json.escape (a.symbol v) = [a.symbol v] := by
  have hall : ∀ n < 256, Json.escape (a.symbol (UInt8.ofNat n)) = [a.symbol (UInt8.ofNat n)] := by
    cases a <;> decide +kernel
  simpa using hall v.toNat v.toNat_lt

theorem Json.quoted_encode (bytes : Bytes) :
    quoted (Base64Url.encode bytes) = '"' :: (Base64Url.encode bytes).toList ++ ['"'] := by
  have hplain : ∀ c ∈ (Base64Url.encode bytes).toList, escape c = [c] := by
    intro c hc
    rw [Base64Url.toList_encode] at hc
    obtain ⟨v, rfl⟩ := Base64.exists_symbol_of_mem bytes hc
    exact Base64.escape_symbol _ v
  rw [quoted, List.flatMap_congr hplain]
  simp

theorem Json.quoted_curve (c : CurveId) : quoted c.name = '"' :: c.name.toList ++ ['"'] := by
  cases c <;> rfl

/-! ### Keys and what spells them -/

theorem CurveId.name_injective {c c' : CurveId} (h : c.name = c'.name) : c = c' := by
  have := c.ofName?_name
  rw [h, c'.ofName?_name] at this
  exact (Option.some.inj this).symm

theorem CurveId.name_of_ofName? {c : CurveId} {s : String} (h : ofName? s = some c) :
    c.name = s := by
  simpa using List.find?_some h

theorem Jwk.required_eq_ok {member s : String} {value : Option String} :
    required member value = .ok s ↔ value = some s := by
  cases value <;> simp [required]

namespace EcKey

variable {k k' : EcKey}

theorem ofPoint_eq_iff : ofPoint k.point = ofPoint k'.point ↔
    k.curve = k'.curve ∧ k.point.x = k'.point.x ∧ k.point.y = k'.point.y := by
  constructor
  · intro h
    exact ⟨congrArg (fun k => k.curve) h, congrArg (fun k => k.point.x) h,
      congrArg (fun k => k.point.y) h⟩
  · obtain ⟨c, ⟨x, y, hon⟩, secret, hsecret⟩ := k
    obtain ⟨c', ⟨x', y', hon'⟩, secret', hsecret'⟩ := k'
    rintro ⟨hc, hx, hy⟩
    cases hc
    cases hx
    cases hy
    rfl

theorem ofCoordinates_eq_ok {c : CurveId} {x y : Bytes} (h : ofCoordinates c x y = .ok k) :
    k.curve = c ∧ k.point.x = Bytes.toNat x ∧ k.point.y = Bytes.toNat y := by
  unfold ofCoordinates at h
  split at h
  · cases h
  · split at h
    · next p hp =>
      cases h
      unfold Point.ofCoordinates? at hp
      split at hp
      · cases hp
        exact ⟨rfl, rfl, rfl⟩
      · cases hp
    · cases h

theorem curve_of_ofScalar {c : CurveId} {bytes : Bytes} (h : ofScalar c bytes = .ok k) :
    k.curve = c := by
  unfold ofScalar at h
  split at h
  · next k' hk =>
    cases h
    obtain ⟨d, -, hk⟩ := Option.bind_eq_some_iff.1 hk
    exact curve_of_ofNat? hk
  · cases h

theorem point_of_coordinates (h : k.coordinates = k'.coordinates) :
    k.point.x = k'.point.x ∧ k.point.y = k'.point.y := by
  obtain ⟨hx, hy⟩ := k.point.coordinates_lt
  obtain ⟨hx', hy'⟩ := k'.point.coordinates_lt
  have hleft := congrArg (fun p => Bytes.toNat p.1) h
  have hright := congrArg (fun p => Bytes.toNat p.2) h
  simp only [coordinates, Bytes.toNat_ofNat hx, Bytes.toNat_ofNat hy, Bytes.toNat_ofNat hx',
    Bytes.toNat_ofNat hy'] at hleft hright
  exact ⟨hleft, hright⟩

end EcKey

namespace KeyMaterial

/-- The key that the material stands for, without a certificate and without its private half. -/
def identity : KeyMaterial → KeyMaterial
  | pair p => pair p.toPublic
  | certificate _ p => pair p.toPublic
  | m => m

theorem identity_effective (m : KeyMaterial) : m.effective.identity = m.identity := by
  cases m <;> rfl

end KeyMaterial

/-- The same curve and point, the same modulus and exponent, or the same secret bytes. -/
def SecretKey.SameKey (k k' : SecretKey) : Prop :=
  k.material.map (·.identity) = k'.material.map (·.identity)

namespace Jwk

/-- The members that make up a key of the type, by name. -/
def essentials (j : Jwk) : Members :=
  if j.kty = "EC" then
    textMember "crv" j.crv ++ ("kty", .string "EC") :: textMember "x" j.x ++ textMember "y" j.y
  else if j.kty = "RSA" then textMember "e" j.e ++ ("kty", .string "RSA") :: textMember "n" j.n
  else textMember "k" j.k ++ [("kty", .string j.kty)]

/-- The members that make up the key spell the material, in one of several ways. -/
inductive Spells : Jwk → KeyMaterial → Prop where
  | secret {j : Jwk} (hkty : j.kty = "oct") {b : Bytes} (hk : j.k = bytesText b) :
      Spells j (.symmetric b)
  | rsa {j : Jwk} (hkty : j.kty = "RSA") {k : RsaKey} {n e : Bytes} (hn : j.n = bytesText n)
      (he : j.e = bytesText e) (hmodulus : k.modulus = Bytes.toNat n)
      (hexponent : k.exponent = Bytes.toNat e) : Spells j (.pair (.rsa k))
  | ec {j : Jwk} (hkty : j.kty = "EC") {k : EcKey} (hcrv : j.crv = some k.curve.name) {x y : Bytes}
      (hx : j.x = bytesText x) (hy : j.y = bytesText y) (hleft : k.point.x = Bytes.toNat x)
      (hright : k.point.y = Bytes.toNat y) : Spells j (.pair (.ec k))

variable {j j' : Jwk} {m m' : KeyMaterial}

theorem essentials_secret (hkty : j.kty = "oct") {b : Bytes} (hk : j.k = bytesText b) :
    j.essentials = [("k", .string (Base64Url.encode b)), ("kty", .string "oct")] := by
  simp [essentials, hkty, hk, bytesText, textMember]

theorem essentials_rsa (hkty : j.kty = "RSA") {n e : Bytes} (hn : j.n = bytesText n)
    (he : j.e = bytesText e) :
    j.essentials = [("e", .string (Base64Url.encode e)), ("kty", .string "RSA"),
      ("n", .string (Base64Url.encode n))] := by
  simp [essentials, hkty, hn, he, bytesText, textMember]

theorem essentials_ec (hkty : j.kty = "EC") {c : CurveId} (hcrv : j.crv = some c.name) {x y : Bytes}
    (hx : j.x = bytesText x) (hy : j.y = bytesText y) :
    j.essentials = [("crv", .string c.name), ("kty", .string "EC"),
      ("x", .string (Base64Url.encode x)), ("y", .string (Base64Url.encode y))] := by
  simp [essentials, hkty, hcrv, hx, hy, bytesText, textMember]

/-- What is hashed is an object with the members that make up the key, and no others. -/
theorem Spells.thumbprintText_eq (h : j.Spells m) :
    j.thumbprintText = .ok (Json.object j.essentials).render := by
  cases h with
  | @secret hkty b hk =>
    have htext : j.thumbprintText =
        .ok ("\x7b\"k\":\"" ++ Base64Url.encode b ++ "\",\"kty\":\"oct\"\x7d") := by
      simp [thumbprintText, hkty, hk, bytesText, required]
    rw [htext, essentials_secret hkty hk]
    refine congrArg Except.ok (String.toList_injective ?_)
    simp [Json.render, Json.chars, Json.membersChars, Json.quoted_encode]
    rfl
  | @rsa hkty k n e hn he hmodulus hexponent =>
    have htext : j.thumbprintText = .ok ("\x7b\"e\":\"" ++ Base64Url.encode e ++
        "\",\"kty\":\"RSA\",\"n\":\"" ++ Base64Url.encode n ++ "\"\x7d") := by
      simp [thumbprintText, hkty, hn, he, bytesText, required]
    rw [htext, essentials_rsa hkty hn he]
    refine congrArg Except.ok (String.toList_injective ?_)
    simp [Json.render, Json.chars, Json.membersChars, Json.quoted_encode]
    rfl
  | @ec hkty k hcrv x y hx hy hleft hright =>
    have htext : j.thumbprintText = .ok ("\x7b\"crv\":\"" ++ k.curve.name ++
        "\",\"kty\":\"EC\",\"x\":\"" ++ Base64Url.encode x ++ "\",\"y\":\"" ++
          Base64Url.encode y ++ "\"\x7d") := by
      simp [thumbprintText, hkty, hcrv, hx, hy, bytesText, required]
    rw [htext, essentials_ec hkty hcrv hx hy]
    refine congrArg Except.ok (String.toList_injective ?_)
    simp [Json.render, Json.chars, Json.membersChars, Json.quoted_encode, Json.quoted_curve]
    rfl

theorem Spells.isWhole (h : j.Spells m) : (Json.object j.essentials).IsWhole := by
  cases h with
  | secret hkty hk =>
    rw [essentials_secret hkty hk]
    exact ⟨by simp, trivial, trivial, trivial⟩
  | rsa hkty hn he hmodulus hexponent =>
    rw [essentials_rsa hkty hn he]
    exact ⟨by simp, trivial, trivial, trivial, trivial⟩
  | ec hkty hcrv hx hy hleft hright =>
    rw [essentials_ec hkty hcrv hx hy]
    exact ⟨by simp, trivial, trivial, trivial, trivial, trivial⟩

theorem Spells.depth_lt (h : j.Spells m) : (Json.object j.essentials).depth < Json.depthLimit := by
  cases h with
  | secret hkty hk =>
    simp [essentials_secret hkty hk, Json.depth, Json.membersDepth, Json.depthLimit]
  | rsa hkty hn he hmodulus hexponent =>
    simp [essentials_rsa hkty hn he, Json.depth, Json.membersDepth, Json.depthLimit]
  | ec hkty hcrv hx hy hleft hright =>
    simp [essentials_ec hkty hcrv hx hy, Json.depth, Json.membersDepth, Json.depthLimit]

theorem Spells.essentials_of_thumbprintText (h : j.Spells m) (h' : j'.Spells m')
    (heq : j.thumbprintText = j'.thumbprintText) : j.essentials = j'.essentials := by
  rw [h.thumbprintText_eq, h'.thumbprintText_eq] at heq
  -- No member can run into the next: the text is read back as the object it was made of.
  have hparse := Json.parse?_render h.isWhole h.depth_lt
  rw [Except.ok.inj heq, Json.parse?_render h'.isWhole h'.depth_lt] at hparse
  exact (Json.object.inj (Option.some.inj hparse)).symm

/-! ### One key, spelled twice -/

theorem Spells.identity_of_essentials (h : j.Spells m) (h' : j'.Spells m')
    (heq : j.essentials = j'.essentials) : m.identity = m'.identity := by
  cases h with
  | secret hkty hk =>
    rw [essentials_secret hkty hk] at heq
    cases h' with
    | secret hkty' hk' =>
      simp only [essentials_secret hkty' hk', List.cons.injEq, Prod.mk.injEq, Json.string.injEq,
        true_and, and_true] at heq
      rw [Base64Url.encode_injective heq]
    | rsa hkty' hn' he' => simp [essentials_rsa hkty' hn' he'] at heq
    | ec hkty' hcrv' hx' hy' => simp [essentials_ec hkty' hcrv' hx' hy'] at heq
  | rsa hkty hn he hmodulus hexponent =>
    rw [essentials_rsa hkty hn he] at heq
    cases h' with
    | secret hkty' hk' => simp [essentials_secret hkty' hk'] at heq
    | rsa hkty' hn' he' hmodulus' hexponent' =>
      simp only [essentials_rsa hkty' hn' he', List.cons.injEq, Prod.mk.injEq, Json.string.injEq,
        true_and, and_true] at heq
      obtain ⟨he, hn⟩ := heq
      rw [Base64Url.encode_injective he, ← hexponent'] at hexponent
      rw [Base64Url.encode_injective hn, ← hmodulus'] at hmodulus
      simp [KeyMaterial.identity, KeyPair.toPublic, RsaKey.toPublic, hmodulus, hexponent]
    | ec hkty' hcrv' hx' hy' => simp [essentials_ec hkty' hcrv' hx' hy'] at heq
  | ec hkty hcrv hx hy hleft hright =>
    rw [essentials_ec hkty hcrv hx hy] at heq
    cases h' with
    | secret hkty' hk' => simp [essentials_secret hkty' hk'] at heq
    | rsa hkty' hn' he' => simp [essentials_rsa hkty' hn' he'] at heq
    | ec hkty' hcrv' hx' hy' hleft' hright' =>
      simp only [essentials_ec hkty' hcrv' hx' hy', List.cons.injEq, Prod.mk.injEq,
        Json.string.injEq, true_and, and_true] at heq
      obtain ⟨hcurve, hx, hy⟩ := heq
      rw [Base64Url.encode_injective hx, ← hleft'] at hleft
      rw [Base64Url.encode_injective hy, ← hright'] at hright
      have hpoint := EcKey.ofPoint_eq_iff.2 ⟨CurveId.name_injective hcurve, hleft, hright⟩
      simp only [KeyMaterial.identity, KeyPair.toPublic, hpoint]

/-- Members of one name, in both keys, are equally long. -/
def AsLong (j j' : Jwk) : Prop :=
  ∀ name text text', (name, Json.string text) ∈ j.essentials →
    (name, Json.string text') ∈ j'.essentials → text.length = text'.length

end Jwk

theorem Base64Url.encode_of_asLong {a b : Bytes} (hlength : (encode a).length = (encode b).length)
    (h : Bytes.toNat a = Bytes.toNat b) : encode a = encode b := by
  rw [← String.length_toList, ← String.length_toList, length_encode, length_encode] at hlength
  simp only [encodedLength] at hlength
  rw [Bytes.toNat_injective (by omega) h]

namespace Jwk

variable {j j' : Jwk} {m m' : KeyMaterial}

theorem Spells.essentials_of_identity (h : j.Spells m) (h' : j'.Spells m')
    (heq : m.identity = m'.identity) (hlong : j.AsLong j') : j.essentials = j'.essentials := by
  cases h with
  | secret hkty hk =>
    cases h' with
    | secret hkty' hk' =>
      rw [essentials_secret hkty hk, essentials_secret hkty' hk', KeyMaterial.symmetric.inj heq]
    | rsa hkty' hn' he' => cases heq
    | ec hkty' hcrv' hx' hy' => cases heq
  | @rsa hkty k n e hn he hmodulus hexponent =>
    cases h' with
    | secret hkty' hk' => cases heq
    | @rsa hkty' k' n' e' hn' he' hmodulus' hexponent' =>
      have hkey := KeyPair.rsa.inj (KeyMaterial.pair.inj heq)
      rw [AsLong, essentials_rsa hkty hn he, essentials_rsa hkty' hn' he'] at hlong
      have hnumber : Bytes.toNat n = Bytes.toNat n' := by
        rw [← hmodulus, ← hmodulus']
        exact congrArg (fun k => k.modulus) hkey
      have hpower : Bytes.toNat e = Bytes.toNat e' := by
        rw [← hexponent, ← hexponent']
        exact congrArg (fun k => k.exponent) hkey
      rw [essentials_rsa hkty hn he, essentials_rsa hkty' hn' he',
        Base64Url.encode_of_asLong (hlong "n" _ _ (by simp) (by simp)) hnumber,
        Base64Url.encode_of_asLong (hlong "e" _ _ (by simp) (by simp)) hpower]
    | ec hkty' hcrv' hx' hy' => cases heq
  | @ec hkty k hcrv x y hx hy hleft hright =>
    cases h' with
    | secret hkty' hk' => cases heq
    | rsa hkty' hn' he' => cases heq
    | @ec hkty' k' hcrv' x' y' hx' hy' hleft' hright' =>
      have hkey := KeyPair.ec.inj (KeyMaterial.pair.inj heq)
      obtain ⟨hcurve, hpx, hpy⟩ := EcKey.ofPoint_eq_iff.1 hkey
      rw [AsLong, essentials_ec hkty hcrv hx hy, essentials_ec hkty' hcrv' hx' hy'] at hlong
      rw [hleft, hleft'] at hpx
      rw [hright, hright'] at hpy
      rw [essentials_ec hkty hcrv hx hy, essentials_ec hkty' hcrv' hx' hy', hcurve,
        Base64Url.encode_of_asLong (hlong "x" _ _ (by simp) (by simp)) hpx,
        Base64Url.encode_of_asLong (hlong "y" _ _ (by simp) (by simp)) hpy]

/-! ### The spelling of exports -/

/-- Numbers take as few bytes as they can, and coordinates all that the curve has. -/
structure Canonical (j : Jwk) : Prop where
  rsa : j.kty = "RSA" → ∀ n e, j.n = bytesText n → j.e = bytesText e →
    n = Bytes.minimal (Bytes.toNat n) ∧ e = Bytes.minimal (Bytes.toNat e)
  ec : j.kty = "EC" → ∀ (c : CurveId) x y, j.crv = some c.name → j.x = bytesText x →
    j.y = bytesText y → x.length = c.width ∧ y.length = c.width

end Jwk

/-- The members of the material's exports. -/
def KeyPair.spelling : KeyPair → Members
  | rsa k => [("e", .string (Base64Url.encode (Bytes.minimal k.exponent))), ("kty", .string "RSA"),
      ("n", .string (Base64Url.encode (Bytes.minimal k.modulus)))]
  | ec k => [("crv", .string k.curve.name), ("kty", .string "EC"),
      ("x", .string (Base64Url.encode k.coordinates.1)),
      ("y", .string (Base64Url.encode k.coordinates.2))]

def KeyMaterial.spelling : KeyMaterial → Members
  | none => []
  | symmetric b => [("k", .string (Base64Url.encode b)), ("kty", .string "oct")]
  | pair p => p.spelling
  | certificate _ p => p.spelling

theorem KeyPair.spelling_toPublic (p : KeyPair) : p.toPublic.spelling = p.spelling := by
  cases p <;> rfl

theorem KeyMaterial.spelling_identity (m : KeyMaterial) : m.identity.spelling = m.spelling := by
  cases m with
  | pair p => exact p.spelling_toPublic
  | certificate der p => exact p.spelling_toPublic
  | _ => rfl

theorem SecretKey.bytesText_injective {a b : Bytes} (h : bytesText a = bytesText b) : a = b :=
  Base64Url.encode_injective (Option.some.inj h)

namespace Jwk

variable {j j' : Jwk} {m m' : KeyMaterial}

theorem Spells.canonical_iff (h : j.Spells m) : j.Canonical ↔ j.essentials = m.spelling := by
  cases h with
  | secret hkty hk =>
    refine iff_of_true ⟨fun hrsa => ?_, fun hec => ?_⟩ (essentials_secret hkty hk)
    · simp [hkty] at hrsa
    · simp [hkty] at hec
  | @rsa hkty k n e hn he hmodulus hexponent =>
    rw [essentials_rsa hkty hn he, KeyMaterial.spelling, KeyPair.spelling, hmodulus, hexponent]
    constructor
    · intro hcanonical
      obtain ⟨hshort, hshort'⟩ := hcanonical.rsa hkty n e hn he
      rw [← hshort, ← hshort']
    · intro heq
      simp only [List.cons.injEq, Prod.mk.injEq, Json.string.injEq, true_and, and_true] at heq
      refine ⟨fun _ n' e' hn' he' => ?_, fun hec => ?_⟩
      · rw [← SecretKey.bytesText_injective (hn.symm.trans hn'),
          ← SecretKey.bytesText_injective (he.symm.trans he')]
        exact ⟨Base64Url.encode_injective heq.2, Base64Url.encode_injective heq.1⟩
      · simp [hkty] at hec
  | @ec hkty k hcrv x y hx hy hleft hright =>
    rw [essentials_ec hkty hcrv hx hy, KeyMaterial.spelling, KeyPair.spelling, EcKey.coordinates,
      hleft, hright]
    constructor
    · intro hcanonical
      -- Bytes as wide as the curve are what their number is written as at that width.
      obtain ⟨hwide, hwide'⟩ := hcanonical.ec hkty k.curve x y hcrv hx hy
      simp only [← hwide]
      rw [Bytes.ofNat_toNat, hwide, ← hwide', Bytes.ofNat_toNat]
    · intro heq
      simp only [List.cons.injEq, Prod.mk.injEq, Json.string.injEq, true_and, and_true] at heq
      refine ⟨fun hrsa => ?_, fun _ c x' y' hc hx' hy' => ?_⟩
      · simp [hkty] at hrsa
      · rw [← SecretKey.bytesText_injective (hx.symm.trans hx'),
          ← SecretKey.bytesText_injective (hy.symm.trans hy'),
          CurveId.name_injective (Option.some.inj (hc.symm.trans hcrv)),
          Base64Url.encode_injective heq.1, Base64Url.encode_injective heq.2]
        exact ⟨Bytes.length_ofNat .., Bytes.length_ofNat ..⟩

/-! ### Imports and exports -/

theorem spells_of_rsaOfJwk {k : RsaKey} (hkty : j.kty = "RSA") (h : SecretKey.rsaOfJwk j = .ok k) :
    j.Spells (.pair (.rsa k)) := by
  obtain ⟨modulus, hmodulus, h⟩ := bind_eq_ok.1 h
  obtain ⟨exponent, hexponent, h⟩ := bind_eq_ok.1 h
  obtain ⟨n, hn, rfl⟩ := map_eq_ok.1 hmodulus
  obtain ⟨e, he, rfl⟩ := map_eq_ok.1 hexponent
  have hkey : k.modulus = Bytes.toNat n ∧ k.exponent = Bytes.toNat e := by
    split at h
    · obtain ⟨rfl, -⟩ := RsaKey.ofPublic_eq_ok.1 (mapError_eq_ok.1 h)
      exact ⟨rfl, rfl⟩
    · obtain ⟨d, -, h⟩ := bind_eq_ok.1 h
      obtain ⟨p, -, h⟩ := bind_eq_ok.1 h
      obtain ⟨q, -, h⟩ := bind_eq_ok.1 h
      obtain ⟨rfl, -⟩ := RsaKey.ofPrivate_eq_ok.1 (mapError_eq_ok.1 h)
      exact ⟨rfl, rfl⟩
  exact .rsa hkty (SecretKey.memberBytes_eq_ok.1 hn) (SecretKey.memberBytes_eq_ok.1 he) hkey.1
    hkey.2

theorem spells_of_ecOfJwk {k : EcKey} (hkty : j.kty = "EC") (h : SecretKey.ecOfJwk j = .ok k) :
    j.Spells (.pair (.ec k)) := by
  obtain ⟨crv, hcrv, h⟩ := bind_eq_ok.1 h
  split at h
  · cases h
  · next curve hname =>
    obtain ⟨x, hx, h⟩ := bind_eq_ok.1 h
    obtain ⟨y, hy, h⟩ := bind_eq_ok.1 h
    obtain ⟨publicKey, hpublic, h⟩ := bind_eq_ok.1 h
    obtain ⟨hcurve, hleft, hright⟩ := EcKey.ofCoordinates_eq_ok hpublic
    have hkey : k.curve = curve ∧ k.point.x = publicKey.point.x ∧
        k.point.y = publicKey.point.y := by
      split at h
      · cases h
        exact ⟨hcurve, rfl, rfl⟩
      · obtain ⟨d, -, h⟩ := bind_eq_ok.1 h
        obtain ⟨key, hscalar, h⟩ := bind_eq_ok.1 h
        split at h
        · next hsame =>
          cases h
          exact ⟨EcKey.curve_of_ofScalar hscalar, EcKey.point_of_coordinates hsame⟩
        · cases h
    obtain ⟨hcurve', hleft', hright'⟩ := hkey
    have hnamed : j.crv = some k.curve.name := by
      rw [required_eq_ok.1 hcrv, hcurve', CurveId.name_of_ofName? hname]
    exact .ec hkty hnamed (SecretKey.memberBytes_eq_ok.1 hx) (SecretKey.memberBytes_eq_ok.1 hy)
      (hleft'.trans hleft) (hright'.trans hright)

theorem spells_of_ofJwk {k : SecretKey} (h : SecretKey.ofJwk j = .ok k) :
    ∃ m, k.material = some m ∧ j.Spells m.effective := by
  obtain ⟨bare, m, usage, hbare, hm, -, rfl⟩ := SecretKey.ofJwk_eq_ok h
  have hspells : j.Spells bare := by
    obtain ⟨hkty, -, -⟩ | ⟨hkty, k, rfl, hk⟩ | ⟨hkty, k, rfl, hk⟩ :=
      SecretKey.bareMaterial_eq_ok hbare
    · rw [SecretKey.bareMaterial, if_pos hkty] at hbare
      obtain ⟨b, hb, rfl⟩ := map_eq_ok.1 hbare
      exact .secret hkty (SecretKey.memberBytes_eq_ok.1 hb)
    · exact spells_of_rsaOfJwk hkty hk
    · exact spells_of_ecOfJwk hkty hk
  refine ⟨m, rfl, ?_⟩
  have heffective : m.effective = bare := by
    obtain rfl | ⟨der, p, rfl, rfl⟩ := SecretKey.certified_eq_ok hm
    · cases hspells <;> rfl
    · rfl
  rwa [heffective]

theorem spells_of_exportPair {p : KeyPair} {withPrivate : Bool} {frame : Jwk}
    (h : SecretKey.exportPair p withPrivate frame = .ok j) :
    j.Spells (.pair p) ∧ j.essentials = p.spelling := by
  cases p with
  | rsa k =>
    have hmembers : j.kty = "RSA" ∧ j.n = SecretKey.natText k.modulus ∧
        j.e = SecretKey.natText k.exponent := by
      obtain rfl | ⟨d, p, q, -, -, rfl⟩ := SecretKey.exportRsa_eq_ok h <;> exact ⟨rfl, rfl, rfl⟩
    obtain ⟨hkty, hn, he⟩ := hmembers
    exact ⟨.rsa hkty hn he (Bytes.toNat_minimal _).symm (Bytes.toNat_minimal _).symm,
      essentials_rsa hkty hn he⟩
  | ec k =>
    cases h
    obtain ⟨hx, hy⟩ := k.point.coordinates_lt
    exact ⟨.ec rfl rfl rfl rfl (Bytes.toNat_ofNat hx).symm (Bytes.toNat_ofNat hy).symm,
      essentials_ec rfl rfl rfl rfl⟩

/-- Every export, with the private half or without it, has the spelling of its material. -/
theorem spells_of_toJwk {k : SecretKey} {m : KeyMaterial} (hm : k.material = some m)
    {withPrivate : Bool} (h : k.toJwk withPrivate = .ok j) :
    j.Spells m.effective ∧ j.essentials = m.spelling := by
  rw [SecretKey.toJwk, SecretKey.read_eq_ok.2 hm, ok_bind] at h
  cases m with
  | none => cases h
  | symmetric b =>
    cases withPrivate with
    | false => cases h
    | true =>
      cases h
      exact ⟨.secret rfl rfl, essentials_secret rfl rfl⟩
  | pair p => exact spells_of_exportPair h
  | certificate der p => exact spells_of_exportPair h

/-! ### Thumbprints -/

/-- The hash tells the texts of the two keys apart. -/
def HashedApart (j j' : Jwk) : Prop :=
  ∀ a b, j.thumbprintText = .ok a → j'.thumbprintText = .ok b →
    HashId.sha256.digest (Bytes.ofText a) = HashId.sha256.digest (Bytes.ofText b) → a = b

theorem thumbprint_of_essentials (h : j.Spells m) (h' : j'.Spells m')
    (heq : j.essentials = j'.essentials) : j.thumbprint = j'.thumbprint := by
  rw [thumbprint, thumbprint, h.thumbprintText_eq, h'.thumbprintText_eq, heq]

theorem essentials_of_thumbprint (h : j.Spells m) (h' : j'.Spells m') (hapart : j.HashedApart j')
    (heq : j.thumbprint = j'.thumbprint) : j.essentials = j'.essentials := by
  have htext := h.thumbprintText_eq
  have htext' := h'.thumbprintText_eq
  rw [thumbprint, thumbprint, htext, htext'] at heq
  have hdigest := Base64Url.encode_injective (Except.ok.inj heq)
  refine h.essentials_of_thumbprintText h' ?_
  rw [htext, htext', hapart _ _ htext htext' hdigest]

theorem Spells.asLong_of_essentials (h : j.Spells m) (heq : j.essentials = j'.essentials) :
    j.AsLong j' := by
  intro name text text' htext htext'
  rw [← heq] at htext'
  have hsame := List.inj_on_of_nodup_map h.isWhole.1 htext htext' rfl
  exact congrArg String.length (Json.string.inj (congrArg Prod.snd hsame))

theorem sameKey_iff {k k' : SecretKey} (hm : k.material = some m) (hm' : k'.material = some m') :
    k.SameKey k' ↔ m.effective.identity = m'.effective.identity := by
  rw [SecretKey.SameKey, hm, hm', m.identity_effective, m'.identity_effective]
  exact Option.some_inj

/-- Of two keys that are read, the thumbprints are the same exactly if the keys are, and their
numbers are equally long. Exports leave no choice of that. -/
theorem thumbprint_identifies {k k' : SecretKey} (h : SecretKey.ofJwk j = .ok k)
    (h' : SecretKey.ofJwk j' = .ok k') (hapart : j.HashedApart j') :
    (∃ print, j.thumbprint = .ok print) ∧
      (j.thumbprint = j'.thumbprint ↔ k.SameKey k' ∧ j.AsLong j') ∧
      (j.Canonical → j'.Canonical → (j.thumbprint = j'.thumbprint ↔ k.SameKey k')) ∧
      (∃ whole, k.toJwk true = .ok whole) ∧
      ∀ withPrivate exported, k.toJwk withPrivate = .ok exported →
        exported.Canonical ∧ (j.Canonical → j.thumbprint = exported.thumbprint) ∧
          (j.HashedApart exported → j.thumbprint = exported.thumbprint → j.Canonical) := by
  obtain ⟨m, hm, hspells⟩ := spells_of_ofJwk h
  obtain ⟨m', hm', hspells'⟩ := spells_of_ofJwk h'
  have hsame := sameKey_iff hm hm'
  have hto : j.thumbprint = j'.thumbprint → j.essentials = j'.essentials :=
    essentials_of_thumbprint hspells hspells' hapart
  refine ⟨⟨_, by rw [thumbprint, hspells.thumbprintText_eq]; rfl⟩, ⟨fun heq => ?_, ?_⟩,
    fun hcanonical hcanonical' => ⟨fun heq => ?_, fun hkey => ?_⟩, ?_,
    fun withPrivate exported hexport => ?_⟩
  · exact ⟨hsame.2 (hspells.identity_of_essentials hspells' (hto heq)),
      hspells.asLong_of_essentials (hto heq)⟩
  · rintro ⟨hkey, hlong⟩
    exact thumbprint_of_essentials hspells hspells'
      (hspells.essentials_of_identity hspells' (hsame.1 hkey) hlong)
  · exact hsame.2 (hspells.identity_of_essentials hspells' (hto heq))
  · refine thumbprint_of_essentials hspells hspells' ?_
    rw [hspells.canonical_iff.1 hcanonical, hspells'.canonical_iff.1 hcanonical',
      ← KeyMaterial.spelling_identity, hsame.1 hkey, KeyMaterial.spelling_identity]
  · obtain ⟨whole, hwhole, hportable⟩ := SecretKey.portable_of_ofJwk h
    exact SecretKey.exists_toJwk hwhole hportable
  · obtain ⟨hexported, hmembers⟩ := spells_of_toJwk hm hexport
    have hspelling : m.effective.spelling = m.spelling := by
      rw [← KeyMaterial.spelling_identity, m.identity_effective, KeyMaterial.spelling_identity]
    rw [← hspelling] at hmembers
    refine ⟨hexported.canonical_iff.2 hmembers, fun hcanonical => ?_, fun hapart heq => ?_⟩
    · refine thumbprint_of_essentials hspells hexported ?_
      rw [hspells.canonical_iff.1 hcanonical, hmembers]
    · rw [hspells.canonical_iff, essentials_of_thumbprint hspells hexported hapart heq, hmembers]

/-- An RSA key with its private half and one without it, with other members besides. -/
theorem thumbprint_identifies_small :
    let half : Jwk := { kty := "RSA", kid := some "a", n := some "IQ", e := some "Aw" }
    let whole : Jwk :=
      { kty := "RSA", alg := some "RS256", n := some "IQ", e := some "Aw", d := some "Bw"
        p := some "Aw", q := some "Cw" }
    ∃ k k', SecretKey.ofJwk half = .ok k ∧ SecretKey.ofJwk whole = .ok k' ∧
      half.HashedApart whole ∧ half.Canonical ∧ whole.Canonical ∧
      half.thumbprint = whole.thumbprint ∧ half.AsLong whole := by
  intro half whole
  let k : SecretKey := .make (some "a") (.pair (.rsa ⟨33, 3, none⟩)) {}
  let k' : SecretKey :=
    .make none (.pair (.rsa ⟨33, 3, some ⟨7, [3, 11]⟩⟩)) { algorithm := some "RS256" }
  have hhalf : SecretKey.ofJwk half = .ok k := by rfl
  have hwhole : SecretKey.ofJwk whole = .ok k' := by rfl
  have hapart : half.HashedApart whole := fun a b ha hb _ => Except.ok.inj (ha.symm.trans hb)
  have hapart' : whole.HashedApart half := fun a b ha hb _ => Except.ok.inj (ha.symm.trans hb)
  obtain ⟨-, hiff, hsame, -, hexport⟩ := thumbprint_identifies hhalf hwhole hapart
  obtain ⟨-, -, -, -, hexport'⟩ := thumbprint_identifies hwhole hhalf hapart'
  have hcanonical : half.Canonical := (hexport true half (by rfl)).1
  have hcanonical' : whole.Canonical := (hexport' true whole (by rfl)).1
  have heq := (hsame hcanonical hcanonical').2 rfl
  exact ⟨k, k', hhalf, hwhole, hapart, hcanonical, hcanonical', heq, (hiff.1 heq).2⟩

/-- A zero byte in front of the exponent leaves the key as it is and makes another thumbprint, also
than that of its export. -/
theorem thumbprint_of_padded :
    let padded : Jwk := { kty := "RSA", n := some "IQ", e := some "AAM" }
    let exported : Jwk := { kty := "RSA", n := some "IQ", e := some "Aw" }
    ∃ k k', SecretKey.ofJwk padded = .ok k ∧ SecretKey.ofJwk exported = .ok k' ∧ k.SameKey k' ∧
      k.toJwk true = .ok exported ∧ padded.HashedApart exported ∧
      padded.thumbprint ≠ exported.thumbprint := by
  intro padded exported
  have hne : padded.thumbprint ≠ exported.thumbprint := by decide +kernel
  refine ⟨.make none (.pair (.rsa ⟨33, 3, none⟩)) {}, .make none (.pair (.rsa ⟨33, 3, none⟩)) {},
    by rfl, by rfl, rfl, by rfl, fun a b ha hb hdigest => absurd ?_ hne, hne⟩
  rw [thumbprint, thumbprint, ha, hb]
  exact congrArg (fun digest => Except.ok (Base64Url.encode digest)) hdigest

end Jwk

end TokenSeal
