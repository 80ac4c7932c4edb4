import TokenSeal.Proofs.Buffers
import TokenSeal.Proofs.WireFormat

/-! The texts that can be decoded, by their characters, their lengths and the bits they leave over,
and coding into buffers that are there already. -/

namespace TokenSeal

namespace Base64

variable {a : Alphabet}

/-- A text of characters of the alphabet, of a length that some bytes take, and with zeros in the bits
that its last group leaves over. -/
structure Proper (a : Alphabet) (text : List Char) : Prop where
  symbols : ∀ c ∈ text, (a.value? c).isSome
  length : text.length % 4 ≠ 1
  leftover : ∀ c v, text.getLast? = some c → a.value? c = some v →
    (text.length % 4 = 2 → v &&& 15 = 0) ∧ (text.length % 4 = 3 → v &&& 3 = 0)

theorem proper_nil : Proper a [] where
  symbols := by simp
  length := by simp
  leftover := by simp

/-- Whole groups leave no bits over. -/
theorem proper_group {c₁ c₂ c₃ c₄ : Char} {text : List Char} :
    Proper a (c₁ :: c₂ :: c₃ :: c₄ :: text) ↔
      ((a.value? c₁).isSome ∧ (a.value? c₂).isSome ∧ (a.value? c₃).isSome ∧
        (a.value? c₄).isSome) ∧ Proper a text := by
  have hlength : (c₁ :: c₂ :: c₃ :: c₄ :: text).length % 4 = text.length % 4 := by
    simp only [List.length_cons]
    omega
  constructor
  · rintro ⟨hsymbols, hmod, hleftover⟩
    simp only [List.forall_mem_cons] at hsymbols
    obtain ⟨h₁, h₂, h₃, h₄, hrest⟩ := hsymbols
    rw [hlength] at hmod hleftover
    refine ⟨⟨h₁, h₂, h₃, h₄⟩, hrest, hmod, fun c v hlast hv => hleftover c v ?_ hv⟩
    cases text with
    | nil => cases hlast
    | cons c' text => simpa using hlast
  · rintro ⟨⟨h₁, h₂, h₃, h₄⟩, hrest⟩
    refine ⟨?_, hlength ▸ hrest.length, fun c v hlast hv => ?_⟩
    · simp only [List.forall_mem_cons]
      exact ⟨h₁, h₂, h₃, h₄, hrest.symbols⟩
    · rw [hlength]
      cases text with
      | nil => exact ⟨by simp, by simp⟩
      | cons c' text => exact hrest.leftover c v (by simpa using hlast) hv

theorem proper_triple {c₁ c₂ c₃ : Char} : Proper a [c₁, c₂, c₃] ↔
    (a.value? c₁).isSome ∧ (a.value? c₂).isSome ∧ ∃ v, a.value? c₃ = some v ∧ v &&& 3 = 0 := by
  constructor
  · intro h
    have hsymbols := h.symbols
    simp only [List.forall_mem_cons] at hsymbols
    obtain ⟨h₁, h₂, h₃, -⟩ := hsymbols
    obtain ⟨v, hv⟩ := Option.isSome_iff_exists.1 h₃
    exact ⟨h₁, h₂, v, hv, (h.leftover c₃ v rfl hv).2 rfl⟩
  · rintro ⟨h₁, h₂, v, hv, hlow⟩
    refine ⟨?_, by simp, fun c w hlast hw => ?_⟩
    · simp [h₁, h₂, hv]
    · obtain rfl : c₃ = c := by simpa using hlast
      obtain rfl : v = w := by simpa [hv] using hw
      exact ⟨by simp, fun _ => hlow⟩

theorem proper_pair {c₁ c₂ : Char} : Proper a [c₁, c₂] ↔
    (a.value? c₁).isSome ∧ ∃ v, a.value? c₂ = some v ∧ v &&& 15 = 0 := by
  constructor
  · intro h
    have hsymbols := h.symbols
    simp only [List.forall_mem_cons] at hsymbols
    obtain ⟨h₁, h₂, -⟩ := hsymbols
    obtain ⟨v, hv⟩ := Option.isSome_iff_exists.1 h₂
    exact ⟨h₁, v, hv, (h.leftover c₂ v rfl hv).1 rfl⟩
  · rintro ⟨h₁, v, hv, hlow⟩
    refine ⟨?_, by simp, fun c w hlast hw => ?_⟩
    · simp [h₁, hv]
    · obtain rfl : c₂ = c := by simpa using hlast
      obtain rfl : v = w := by simpa [hv] using hw
      exact ⟨fun _ => hlow, by simp⟩

/-- What can be decoded is what is proper, group by group. -/
theorem isSome_decodeOnto : ∀ (done : Bytes) (text : List Char),
    (decodeOnto a done text).isSome ↔ Proper a text
  | done, c₁ :: c₂ :: c₃ :: c₄ :: text => by
    rw [decodeOnto, proper_group]
    cases a.value? c₁ with
    | none => simp
    | some p =>
      cases a.value? c₂ with
      | none => simp
      | some q =>
        cases a.value? c₃ with
        | none => simp
        | some r =>
          cases a.value? c₄ with
          | none => simp
          | some s => simp [isSome_decodeOnto _ text]
  | done, [c₁, c₂, c₃] => by
    rw [decodeOnto, proper_triple]
    cases a.value? c₁ with
    | none => simp
    | some p =>
      cases a.value? c₂ with
      | none => simp
      | some q =>
        cases a.value? c₃ with
        | none => simp
        | some r => by_cases hlow : r &&& 3 = 0 <;> simp [hlow]
  | done, [c₁, c₂] => by
    rw [decodeOnto, proper_pair]
    cases a.value? c₁ with
    | none => simp
    | some p =>
      cases a.value? c₂ with
      | none => simp
      | some q => by_cases hlow : q &&& 15 = 0 <;> simp [hlow]
  | done, [c] => by
    have hnot : ¬ Proper a [c] := fun h => h.length rfl
    simp [decodeOnto, hnot]
  | done, [] => by simp [decodeOnto, proper_nil]

theorem isSome_value?_iff {c : Char} : (Alphabet.value? .urlSafe c).isSome ↔
    c.isAlphanum = true ∨ c = '-' ∨ c = '_' := by
  constructor
  · intro h
    obtain ⟨v, hv⟩ := Option.isSome_iff_exists.1 h
    obtain ⟨rfl, -⟩ := symbol_of_value? hv
    exact symbol_urlSafe v
  · rintro (h | rfl | rfl)
    · simp only [Char.isAlphanum, Char.isAlpha, Char.isUpper, Char.isLower, Char.isDigit,
        Bool.or_eq_true, Bool.and_eq_true, decide_eq_true_eq] at h
      have hrange : (('A' ≤ c ∧ c ≤ 'Z') ∨ ('a' ≤ c ∧ c ≤ 'z')) ∨ ('0' ≤ c ∧ c ≤ '9') := h
      unfold Alphabet.value?
      split
      · rfl
      split
      · rfl
      split
      · rfl
      · next hupper hlower hdigit => exact absurd hrange (by simp [hupper, hlower, hdigit])
    · rfl
    · rfl

end Base64

namespace Base64Url

/-! ### Texts -/

theorem exists_decode_iff {text : String} :
    (∃ bytes, decode text = .ok bytes) ↔ Base64.Proper .urlSafe text.toList := by
  rw [← Base64.isSome_decodeOnto []]
  constructor
  · rintro ⟨bytes, h⟩
    have hchars : text.toList = Base64.encodeChars .urlSafe bytes := by
      rw [decode_eq_ok_iff.1 h, toList_encode]
    exact Option.isSome_iff_exists.2 ⟨bytes, Base64.decodeChars?_eq_some_iff.2 hchars⟩
  · intro h
    obtain ⟨bytes, hbytes⟩ := Option.isSome_iff_exists.1 h
    have hchars := Base64.decodeChars?_eq_some_iff.1 hbytes
    refine ⟨bytes, decode_eq_ok_iff.2 ?_⟩
    rw [encode, ← hchars, String.ofList_toList]

theorem decode_improper {text : String} (h : ¬ Base64.Proper .urlSafe text.toList) :
    ∃ cause, decode text = .error cause ∧ cause.kind = .format := by
  cases hdecode : decode text with
  | ok bytes => exact absurd (exists_decode_iff.1 ⟨bytes, hdecode⟩) h
  | error cause => exact ⟨cause, rfl, kind_of_decode hdecode⟩

theorem length_encode (bytes : Bytes) :
    (encode bytes).toList.length = encodedLength bytes.length := by
  rw [toList_encode, Base64.length_encodeChars, encodedLength]

/-! ### Lengths -/

theorem decodedLength_encodedLength (n : Nat) : decodedLength (encodedLength n) = .ok n := by
  have hmod : ¬ encodedLength n % 4 = 1 := by
    rw [encodedLength]
    omega
  have hback : encodedLength n * 3 / 4 = n := by
    rw [encodedLength]
    omega
  rw [decodedLength, if_neg hmod, hback]

theorem decodedLength_eq_error {m : Nat} :
    (∃ cause, decodedLength m = .error cause) ↔ ∀ n, encodedLength n ≠ m := by
  constructor
  · rintro ⟨cause, h⟩ n rfl
    rw [decodedLength_encodedLength] at h
    cases h
  · intro h
    by_cases hmod : m % 4 = 1
    · exact ⟨_, if_pos hmod⟩
    · have hback : encodedLength (m * 3 / 4) = m := by
        rw [encodedLength]
        obtain h | h | h : m % 4 = 0 ∨ m % 4 = 2 ∨ m % 4 = 3 := by omega
        all_goals omega
      exact absurd hback (h _)

/-- Words do for the lengths as long as nothing overflows. -/
theorem toNat_encodedLength (n : UInt64) (h : 4 * n.toNat + 2 < 2 ^ 64) :
    ((n * 4 + 2) / 3).toNat = encodedLength n.toNat := by
  have hmul : (n * 4).toNat = n.toNat * 4 := by
    rw [UInt64.toNat_mul]
    exact Nat.mod_eq_of_lt (by simp; omega)
  have hadd : (n * 4 + 2).toNat = n.toNat * 4 + 2 := by
    rw [UInt64.toNat_add, hmul]
    exact Nat.mod_eq_of_lt (by simp; omega)
  rw [UInt64.toNat_div, hadd]
  rfl

theorem toNat_decodedLength (m : UInt64) (h : 3 * m.toNat < 2 ^ 64) :
    decodedLength m.toNat =
      if m % 4 = 1 then .error (.format (.base64Length m.toNat)) else .ok (m * 3 / 4).toNat := by
  have hmod : m % 4 = 1 ↔ m.toNat % 4 = 1 := by
    rw [← UInt64.toNat_inj, UInt64.toNat_mod]
    rfl
  have hmul : (m * 3 / 4).toNat = m.toNat * 3 / 4 := by
    rw [UInt64.toNat_div, UInt64.toNat_mul, Nat.mod_eq_of_lt (by simp; omega)]
    rfl
  simp only [decodedLength, hmod, hmul]

/-! ### Buffers -/

theorem encodeInto_of_le {bytes buffer : Bytes}
    (h : encodedLength bytes.length ≤ buffer.length) : encodeInto bytes buffer =
      .ok (encode bytes,
        Bytes.ofText (encode bytes) ++ buffer.drop (encodedLength bytes.length)) := by
  have hlength : (Bytes.ofText (encode bytes)).length = encodedLength bytes.length := by
    rw [Bytes.length_ofText, utf8ByteSize_encode]
  simp only [encodeInto, Nat.not_lt.2 h, if_false, overwrite, hlength]

theorem encodeInto_of_lt {bytes buffer : Bytes}
    (h : buffer.length < encodedLength bytes.length) :
    ∃ cause, encodeInto bytes buffer = .error cause ∧ cause.kind = .format :=
  ⟨_, if_pos h, rfl⟩

theorem decodeInto_of_lt {text : String} {buffer : Bytes} {needed : Nat}
    (hneeded : decodedLength text.utf8ByteSize = .ok needed) (h : buffer.length < needed) :
    ∃ cause, decodeInto text buffer = .error cause ∧ cause.kind = .format := by
  refine ⟨.format (.base64Room buffer.length needed), ?_, rfl⟩
  simp only [decodeInto, hneeded, ok_bind, h, if_true]
  rfl

/-- A length that no bytes take is told before the room is looked at. -/
theorem decodeInto_of_error {text : String} {cause : Fault}
    (h : decodedLength text.utf8ByteSize = .error cause) (buffer : Bytes) :
    decodeInto text buffer = .error cause ∧ decode text = .error cause := by
  constructor
  · rw [decodeInto, h, error_bind]
  · rw [decode, h, error_bind]

/-- Encoding and decoding are inverse to each other, and what is no encoding is refused: padding and
other foreign characters, lengths that no bytes take, and bits left over that are not zero. The lengths
of texts and of bytes tell each other. In a buffer that is long enough all is as without one, and what
stands behind the text stays. -/
theorem decode_inverse_encode :
    (∀ text bytes, decode text = .ok bytes ↔ text = encode bytes) ∧
    (∀ text, (∃ bytes, decode text = .ok bytes) ↔ Base64.Proper .urlSafe text.toList) ∧
    (∀ text, ¬ Base64.Proper .urlSafe text.toList →
      ∃ cause, decode text = .error cause ∧ cause.kind = .format) ∧
    (∀ c, (Base64.Alphabet.value? .urlSafe c).isSome ↔
      c.isAlphanum = true ∨ c = '-' ∨ c = '_') ∧
    (∀ text text' bytes, decode text = .ok bytes → decode text' = .ok bytes → text = text') ∧
    (∀ bytes, (encode bytes).toList.length = encodedLength bytes.length ∧
      ∀ c ∈ (encode bytes).toList, c.isAlphanum = true ∨ c = '-' ∨ c = '_') ∧
    (∀ n, decodedLength (encodedLength n) = .ok n) ∧
    (∀ m, (∃ cause, decodedLength m = .error cause) ↔ ∀ n, encodedLength n ≠ m) ∧
    (∀ n : UInt64, 4 * n.toNat + 2 < 2 ^ 64 →
      ((n * 4 + 2) / 3).toNat = encodedLength n.toNat) ∧
    (∀ m : UInt64, 3 * m.toNat < 2 ^ 64 → decodedLength m.toNat =
      if m % 4 = 1 then .error (.format (.base64Length m.toNat)) else .ok (m * 3 / 4).toNat) ∧
    (∀ bytes buffer : Bytes,
      (encodedLength bytes.length ≤ buffer.length → encodeInto bytes buffer =
        .ok (encode bytes,
          Bytes.ofText (encode bytes) ++ buffer.drop (encodedLength bytes.length))) ∧
      (buffer.length < encodedLength bytes.length →
        ∃ cause, encodeInto bytes buffer = .error cause ∧ cause.kind = .format)) ∧
    ∀ (text : String) (buffer : Bytes),
      (∀ needed, decodedLength text.utf8ByteSize = .ok needed → needed ≤ buffer.length →
        decodeInto text buffer =
          (decode text).map fun bytes => (bytes, bytes ++ buffer.drop bytes.length)) ∧
      (∀ needed, decodedLength text.utf8ByteSize = .ok needed → buffer.length < needed →
        ∃ cause, decodeInto text buffer = .error cause ∧ cause.kind = .format) ∧
      ∀ cause, decodedLength text.utf8ByteSize = .error cause →
        decodeInto text buffer = .error cause ∧ decode text = .error cause := by
  refine ⟨fun _ _ => decode_eq_ok_iff, fun _ => exists_decode_iff, fun _ => decode_improper,
    fun _ => Base64.isSome_value?_iff, ?_, ?_, decodedLength_encodedLength,
    fun _ => decodedLength_eq_error, toNat_encodedLength, toNat_decodedLength, ?_, ?_⟩
  · intro text text' bytes h h'
    exact (decode_eq_ok_iff.1 h).trans (decode_eq_ok_iff.1 h').symm
  · intro bytes
    obtain ⟨halphabet, -⟩ := isCoded_encode bytes
    exact ⟨length_encode bytes, halphabet⟩
  · exact fun bytes buffer => ⟨encodeInto_of_le, encodeInto_of_lt⟩
  · exact fun text buffer => ⟨fun needed hneeded hroom => decodeInto_of_le hneeded hroom,
      fun needed => decodeInto_of_lt, fun cause hcause => decodeInto_of_error hcause buffer⟩

/-- A greeting, the same with a bit left over or with padding, and a buffer with a byte to spare. -/
theorem decode_inverse_encode_greeting :
    decode "aGk" = .ok (Bytes.ofText "hi") ∧
    (∃ cause, decode "aGl" = .error cause ∧ cause.kind = .format) ∧
    (∃ cause, decode "aGk=" = .error cause ∧ cause.kind = .format) ∧
    encodeInto (Bytes.ofText "hi") [1, 2, 3, 4] = .ok ("aGk", Bytes.ofText "aGk" ++ [4]) ∧
    ∃ cause, encodeInto (Bytes.ofText "hi") [1, 2] = .error cause ∧ cause.kind = .format := by
  obtain ⟨hexact, -, hrefuses, -, -, -, -, -, -, -, hinto, -⟩ := decode_inverse_encode
  have hcode : encode (Bytes.ofText "hi") = "aGk" := by decide
  have hleft : ¬ Base64.Proper .urlSafe "aGl".toList := by
    intro h
    have hlow := (h.leftover 'l' 37 (by decide) (by decide)).2 (by decide)
    exact absurd hlow (by decide)
  have hpad : ¬ Base64.Proper .urlSafe "aGk=".toList := by
    intro h
    have hsymbol := h.symbols '=' (by decide)
    exact absurd hsymbol (by decide)
  have hbuffer := (hinto (Bytes.ofText "hi") [1, 2, 3, 4]).1 (by decide)
  have hshort := (hinto (Bytes.ofText "hi") [1, 2]).2 (by decide)
  rw [hcode] at hbuffer
  exact ⟨(hexact _ _).2 hcode.symm, hrefuses _ hleft, hrefuses _ hpad, hbuffer, hshort⟩

end Base64Url

end TokenSeal
