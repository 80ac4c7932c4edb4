import TokenSeal.Proofs.Text
import TokenSeal.Text.Base64Url

/-! Base-64 texts and byte strings correspond one to one. A text is read group by group, and a
group of characters is read only if it is what its bytes are written as. -/

namespace TokenSeal.Base64

/-! ### Single characters -/

/-- What there is to say of each value and of each plain character. -/
theorem symbol_table (a : Alphabet) :
    (∀ n < 64, a.value? (a.symbol (UInt8.ofNat n)) = some (UInt8.ofNat n)) ∧
    (∀ n < 128, (a.value? (Char.ofNat n)).all fun v => a.symbol v = Char.ofNat n ∧ v < 64) ∧
    ∀ n < 256, (a.symbol (UInt8.ofNat n)).toNat < 128 ∧ a.symbol (UInt8.ofNat n) ≠ '.' := by
  cases a <;> decide +kernel

theorem value?_symbol (a : Alphabet) {v : UInt8} (h : v < 64) : a.value? (a.symbol v) = some v := by
  obtain ⟨hall, -⟩ := symbol_table a
  simpa using hall v.toNat (UInt8.lt_iff_toNat_lt.1 h)

theorem toNat_lt_of_value? {a : Alphabet} {c : Char} {v : UInt8} (h : a.value? c = some v) :
    c.toNat < 128 := by
  have hle : ∀ d : Char, c ≤ d → c.toNat ≤ d.toNat := fun d hd => UInt32.le_iff_toNat_le.1 hd
  unfold Alphabet.value? at h
  split at h
  · next hc => have := hle _ hc.2; change _ ≤ 90 at this; omega
  split at h
  · next hc => have := hle _ hc.2; change _ ≤ 122 at this; omega
  split at h
  · next hc => have := hle _ hc.2; change _ ≤ 57 at this; omega
  split at h
  · next hc => subst hc; cases a <;> decide
  split at h
  · next hc => subst hc; cases a <;> decide
  · simp at h

theorem symbol_of_value? {a : Alphabet} {c : Char} {v : UInt8} (h : a.value? c = some v) :
    a.symbol v = c ∧ v < 64 := by
  obtain ⟨-, hall, -⟩ := symbol_table a
  simpa [h] using hall c.toNat (toNat_lt_of_value? h)

/-! ### Three bytes and four six-bit values -/

theorem eq_of_bits {v w : UInt8}
    (h : ∀ i < 8, v.toBitVec.getLsbD i = w.toBitVec.getLsbD i) : v = w :=
  UInt8.toBitVec_inj.1 (BitVec.eq_of_getLsbD_eq h)

section Groups

variable (x y z : UInt8) {p q r s : UInt8}

theorem first_byte : (x >>> 2) <<< 2 ||| ((x &&& 3) <<< 4 ||| y >>> 4) >>> 4 = x := by
  apply eq_of_bits
  intro i hi
  interval_cases i <;> simp

theorem second_byte :
    ((x &&& 3) <<< 4 ||| y >>> 4) <<< 4 ||| ((y &&& 15) <<< 2 ||| z >>> 6) >>> 2 = y := by
  apply eq_of_bits
  intro i hi
  interval_cases i <;> simp

theorem third_byte : ((y &&& 15) <<< 2 ||| z >>> 6) <<< 6 ||| (z &&& 63) = z := by
  apply eq_of_bits
  intro i hi
  interval_cases i <;> simp

theorem and_eq_self_of_lt {v : UInt8} (h : v < 64) : v &&& 63 = v := by
  have hlt : v.toNat < 2 ^ 6 := UInt8.lt_iff_toNat_lt.1 h
  apply UInt8.toNat_inj.1
  rw [UInt8.toNat_and]
  exact Nat.and_two_pow_sub_one_of_lt_two_pow hlt

theorem first_value (hp : p < 64) (hq : q < 64) : (p <<< 2 ||| q >>> 4) >>> 2 = p := by
  rw [← and_eq_self_of_lt hp, ← and_eq_self_of_lt hq]
  apply eq_of_bits
  intro i hi
  interval_cases i <;> simp

theorem second_value (hq : q < 64) (hr : r < 64) :
    ((p <<< 2 ||| q >>> 4) &&& 3) <<< 4 ||| (q <<< 4 ||| r >>> 2) >>> 4 = q := by
  rw [← and_eq_self_of_lt hq, ← and_eq_self_of_lt hr]
  apply eq_of_bits
  intro i hi
  interval_cases i <;> simp

theorem third_value (hr : r < 64) (hs : s < 64) :
    ((q <<< 4 ||| r >>> 2) &&& 15) <<< 2 ||| (r <<< 6 ||| s) >>> 6 = r := by
  rw [← and_eq_self_of_lt hr, ← and_eq_self_of_lt hs]
  apply eq_of_bits
  intro i hi
  interval_cases i <;> simp

theorem fourth_value (hs : s < 64) : (r <<< 6 ||| s) &&& 63 = s := by
  rw [← and_eq_self_of_lt hs]
  apply eq_of_bits
  intro i hi
  interval_cases i <;> simp

/-- The bits that a last group of one byte leaves over are zero, so nothing is lost. -/
theorem second_value_last (hq : q < 64) (h : q &&& 15 = 0) :
    ((p <<< 2 ||| q >>> 4) &&& 3) <<< 4 = q := by
  have hlow : (q <<< 4 ||| (0 : UInt8) >>> 2) >>> 4 = q &&& 15 := by
    apply eq_of_bits
    intro i hi
    interval_cases i <;> simp
  have hv := second_value (p := p) (r := 0) hq (by decide)
  rwa [hlow, h, UInt8.or_zero] at hv

theorem third_value_last (hr : r < 64) (h : r &&& 3 = 0) :
    ((q <<< 4 ||| r >>> 2) &&& 15) <<< 2 = r := by
  have hlow : (r <<< 6 ||| (0 : UInt8)) >>> 6 = r &&& 3 := by
    apply eq_of_bits
    intro i hi
    interval_cases i <;> simp
  have hv := third_value (q := q) (s := 0) hr (by decide)
  rwa [hlow, h, UInt8.or_zero] at hv

theorem second_value_low : ((x &&& 3) <<< 4) &&& 15 = 0 := by
  apply eq_of_bits
  intro i hi
  interval_cases i <;> simp

theorem third_value_low : ((y &&& 15) <<< 2) &&& 3 = 0 := by
  apply eq_of_bits
  intro i hi
  interval_cases i <;> simp

theorem lt_of_and_eq_self {v : UInt8} (h : v &&& 63 = v) : v < 64 := by
  have hle : (v &&& 63).toNat ≤ 63 := by
    rw [UInt8.toNat_and]
    exact Nat.and_le_right
  rw [h] at hle
  exact UInt8.lt_iff_toNat_lt.2 (Nat.lt_succ_of_le hle)

theorem shiftRight_two_lt : x >>> 2 < 64 := by
  apply lt_of_and_eq_self
  apply eq_of_bits
  intro i hi
  interval_cases i <;> simp

theorem second_value_lt : (x &&& 3) <<< 4 ||| y >>> 4 < 64 := by
  apply lt_of_and_eq_self
  apply eq_of_bits
  intro i hi
  interval_cases i <;> simp

theorem third_value_lt : (y &&& 15) <<< 2 ||| z >>> 6 < 64 := by
  apply lt_of_and_eq_self
  apply eq_of_bits
  intro i hi
  interval_cases i <;> simp

theorem and_sixtyThree_lt : z &&& 63 < 64 := by
  apply lt_of_and_eq_self
  simp [UInt8.and_assoc]

end Groups

/-! ### Whole texts -/

variable {a : Alphabet}

theorem encodeOnto_eq : ∀ (done : List Char) (bytes : Bytes),
    encodeOnto a done bytes = done.reverse ++ encodeChars a bytes
  | done, x :: y :: z :: rest => by
    simp only [encodeChars, encodeOnto]
    rw [encodeOnto_eq _ rest, encodeOnto_eq [_, _, _, _] rest]
    simp
  | done, [x, y] => by simp [encodeChars, encodeOnto]
  | done, [x] => by simp [encodeChars, encodeOnto]
  | done, [] => by simp [encodeChars, encodeOnto]

theorem encodeChars_cons (x y z : UInt8) (rest : Bytes) :
    encodeChars a (x :: y :: z :: rest) =
      a.symbol (x >>> 2) :: a.symbol ((x &&& 3) <<< 4 ||| y >>> 4) ::
        a.symbol ((y &&& 15) <<< 2 ||| z >>> 6) :: a.symbol (z &&& 63) :: encodeChars a rest := by
  rw [encodeChars, encodeOnto, encodeOnto_eq]
  simp

theorem decodeOnto_encodeChars : ∀ (done bytes : Bytes),
    decodeOnto a done (encodeChars a bytes) = some (done.reverse ++ bytes)
  | done, x :: y :: z :: rest => by
    rw [encodeChars_cons, decodeOnto]
    simp only [value?_symbol a (shiftRight_two_lt x), value?_symbol a (second_value_lt x y),
      value?_symbol a (third_value_lt y z), value?_symbol a (and_sixtyThree_lt z)]
    rw [decodeOnto_encodeChars _ rest, first_byte, second_byte, third_byte]
    simp
  | done, [x, y] => by
    have hlast : (y &&& 15) <<< 2 < 64 := by simpa using third_value_lt y 0
    have h₁ := first_byte x y
    have h₂ := second_byte x y 0
    simp only [UInt8.zero_shiftRight, UInt8.or_zero] at h₂
    simp [encodeChars, encodeOnto, decodeOnto, value?_symbol a (shiftRight_two_lt x),
      value?_symbol a (second_value_lt x y), value?_symbol a hlast, third_value_low, h₁, h₂]
  | done, [x] => by
    have hlast : (x &&& 3) <<< 4 < 64 := by simpa using second_value_lt x 0
    have h₁ := first_byte x 0
    simp only [UInt8.zero_shiftRight, UInt8.or_zero] at h₁
    simp [encodeChars, encodeOnto, decodeOnto, value?_symbol a (shiftRight_two_lt x),
      value?_symbol a hlast, second_value_low, h₁]
  | done, [] => by simp [encodeChars, encodeOnto, decodeOnto]

theorem decodeChars?_encodeChars (bytes : Bytes) :
    decodeChars? a (encodeChars a bytes) = some bytes :=
  decodeOnto_encodeChars [] bytes

theorem encodeChars_of_decodeOnto : ∀ (done : Bytes) (text : List Char) (bytes : Bytes),
    decodeOnto a done text = some bytes →
      ∃ rest, bytes = done.reverse ++ rest ∧ text = encodeChars a rest
  | done, c₁ :: c₂ :: c₃ :: c₄ :: text, bytes, h => by
    rw [decodeOnto] at h
    split at h
    · next p q r s hp hq hr hs =>
      obtain ⟨rest, hbytes, htext⟩ := encodeChars_of_decodeOnto _ text bytes h
      obtain ⟨rfl, hp'⟩ := symbol_of_value? hp
      obtain ⟨rfl, hq'⟩ := symbol_of_value? hq
      obtain ⟨rfl, hr'⟩ := symbol_of_value? hr
      obtain ⟨rfl, hs'⟩ := symbol_of_value? hs
      refine ⟨_ :: _ :: _ :: rest, by simpa using hbytes, ?_⟩
      rw [encodeChars_cons, first_value hp' hq', second_value hq' hr', third_value hr' hs',
        fourth_value hs', htext]
    · simp at h
  | done, [c₁, c₂, c₃], bytes, h => by
    rw [decodeOnto] at h
    split at h
    · next p q r hp hq hr =>
      obtain ⟨rfl, hp'⟩ := symbol_of_value? hp
      obtain ⟨rfl, hq'⟩ := symbol_of_value? hq
      obtain ⟨rfl, hr'⟩ := symbol_of_value? hr
      split at h
      · next hlow =>
        obtain rfl := Option.some.inj h
        refine ⟨[p <<< 2 ||| q >>> 4, q <<< 4 ||| r >>> 2], by simp, ?_⟩
        simp [encodeChars, encodeOnto, first_value hp' hq', second_value hq' hr',
          third_value_last hr' hlow]
      · simp at h
    · simp at h
  | done, [c₁, c₂], bytes, h => by
    rw [decodeOnto] at h
    split at h
    · next p q hp hq =>
      obtain ⟨rfl, hp'⟩ := symbol_of_value? hp
      obtain ⟨rfl, hq'⟩ := symbol_of_value? hq
      split at h
      · next hlow =>
        obtain rfl := Option.some.inj h
        refine ⟨[p <<< 2 ||| q >>> 4], by simp, ?_⟩
        simp [encodeChars, encodeOnto, first_value hp' hq', second_value_last hq' hlow]
      · simp at h
    · simp at h
  | done, [_], bytes, h => by simp [decodeOnto] at h
  | done, [], bytes, h => by
    obtain rfl := Option.some.inj h
    exact ⟨[], by simp [encodeChars, encodeOnto]⟩

theorem decodeChars?_eq_some_iff {text : List Char} {bytes : Bytes} :
    decodeChars? a text = some bytes ↔ text = encodeChars a bytes := by
  constructor
  · intro h
    obtain ⟨rest, rfl, rfl⟩ := encodeChars_of_decodeOnto [] text bytes h
    rfl
  · rintro rfl
    exact decodeChars?_encodeChars bytes

/-! ### Lengths -/

theorem length_encodeChars : ∀ bytes : Bytes,
    (encodeChars a bytes).length = (bytes.length * 4 + 2) / 3
  | x :: y :: z :: rest => by
    rw [encodeChars_cons]
    simp only [List.length_cons, length_encodeChars rest]
    omega
  | [x, y] => by simp [encodeChars, encodeOnto]
  | [x] => by simp [encodeChars, encodeOnto]
  | [] => by simp [encodeChars, encodeOnto]

theorem symbol_ascii (a : Alphabet) (v : UInt8) : (a.symbol v).toNat < 128 := by
  obtain ⟨-, -, hall⟩ := symbol_table a
  simpa using (hall v.toNat v.toNat_lt).1

theorem symbol_ne_dot (a : Alphabet) (v : UInt8) : a.symbol v ≠ '.' := by
  obtain ⟨-, -, hall⟩ := symbol_table a
  simpa using (hall v.toNat v.toNat_lt).2

theorem exists_symbol_of_mem : ∀ (bytes : Bytes) {c : Char}, c ∈ encodeChars a bytes →
    ∃ v, c = a.symbol v
  | x :: y :: z :: rest, c, h => by
    rw [encodeChars_cons] at h
    simp only [List.mem_cons] at h
    rcases h with rfl | rfl | rfl | rfl | h
    · exact ⟨_, rfl⟩
    · exact ⟨_, rfl⟩
    · exact ⟨_, rfl⟩
    · exact ⟨_, rfl⟩
    · exact exists_symbol_of_mem rest h
  | [x, y], c, h => by
    simp only [encodeChars, encodeOnto, List.reverse_cons, List.reverse_nil, List.nil_append,
      List.cons_append, List.mem_cons, List.not_mem_nil, or_false] at h
    rcases h with rfl | rfl | rfl <;> exact ⟨_, rfl⟩
  | [x], c, h => by
    simp only [encodeChars, encodeOnto, List.reverse_cons, List.reverse_nil, List.nil_append,
      List.cons_append, List.mem_cons, List.not_mem_nil, or_false] at h
    rcases h with rfl | rfl <;> exact ⟨_, rfl⟩
  | [], c, h => by simp [encodeChars, encodeOnto] at h

/-! ### Padding -/

theorem symbol_ne_pad (v : UInt8) : Alphabet.symbol .standard v ≠ '=' := by
  have hall : ∀ n < 256, Alphabet.symbol .standard (UInt8.ofNat n) ≠ '=' := by decide +kernel
  simpa using hall v.toNat v.toNat_lt

theorem unpad_append {text : List Char} {n : Nat} (htext : '=' ∉ text) (hn : n ≤ 2) :
    unpad (text ++ List.replicate n '=') = text := by
  obtain ⟨back, rfl⟩ : ∃ back : List Char, text = back.reverse := ⟨text.reverse, by simp⟩
  have hlast : ∀ c rest, back = c :: rest → c ≠ '=' := by
    rintro c rest rfl rfl
    exact htext (by simp)
  interval_cases n
  · cases back with
    | nil => rfl
    | cons c rest => simp [unpad, hlast c rest rfl]
  · cases back with
    | nil => rfl
    | cons c rest => simp [unpad, hlast c rest rfl]
  · simp [unpad]

theorem decodePadded?_encodePadded (bytes : Bytes) :
    decodePadded? (encodePadded bytes) = some bytes := by
  let chars := encodeChars .standard bytes
  let pad := List.replicate ((4 - chars.length % 4) % 4) '='
  have hlength : chars.length = (bytes.length * 4 + 2) / 3 := length_encodeChars bytes
  have hchars : ∀ c ∈ chars, c.toNat < 128 ∧ c ≠ '=' := by
    intro c hc
    obtain ⟨v, rfl⟩ := exists_symbol_of_mem bytes hc
    exact ⟨symbol_ascii _ v, symbol_ne_pad v⟩
  have hpad : ∀ c ∈ pad, c.toNat < 128 := by
    intro c hc
    rw [List.eq_of_mem_replicate hc]
    decide
  have hascii : ∀ c ∈ chars ++ pad, c.toNat < 128 := by
    intro c hc
    exact (List.mem_append.1 hc).elim (fun h => (hchars c h).1) (hpad c)
  have hsize : (String.ofList (chars ++ pad)).utf8ByteSize % 4 = 0 := by
    rw [utf8ByteSize_ofList_of_ascii hascii, List.length_append, List.length_replicate]
    omega
  have hunpad : unpad (chars ++ pad) = chars :=
    unpad_append (fun h => (hchars _ h).2 rfl) (by omega)
  rw [encodePadded, decodePadded?, if_pos hsize, String.toList_ofList, hunpad]
  exact decodeChars?_encodeChars bytes

end TokenSeal.Base64

namespace TokenSeal.Base64Url

theorem toList_encode (bytes : Bytes) :
    (encode bytes).toList = Base64.encodeChars .urlSafe bytes := by
  simp [encode]

theorem utf8ByteSize_encode (bytes : Bytes) :
    (encode bytes).utf8ByteSize = encodedLength bytes.length := by
  have hascii : ∀ c ∈ Base64.encodeChars .urlSafe bytes, c.toNat < 128 := by
    intro c hc
    obtain ⟨v, rfl⟩ := Base64.exists_symbol_of_mem bytes hc
    exact Base64.symbol_ascii _ v
  rw [encode, utf8ByteSize_ofList_of_ascii hascii, Base64.length_encodeChars, encodedLength]

theorem dot_notMem_encode (bytes : Bytes) : '.' ∉ (encode bytes).toList := by
  rw [toList_encode]
  intro hdot
  obtain ⟨v, hv⟩ := Base64.exists_symbol_of_mem bytes hdot
  exact Base64.symbol_ne_dot _ v hv.symm

theorem decode_encode (bytes : Bytes) : decode (encode bytes) = .ok bytes := by
  have hlength : encodedLength bytes.length % 4 ≠ 1 := by
    simp only [encodedLength]
    omega
  simp [decode, decodedLength, utf8ByteSize_encode, hlength, toList_encode,
    Base64.decodeChars?_encodeChars, bind, Except.bind, pure, Except.pure]

/-- A text is read as some bytes exactly when it is what they are written as. -/
theorem decode_eq_ok_iff {text : String} {bytes : Bytes} :
    decode text = .ok bytes ↔ text = encode bytes := by
  constructor
  · intro h
    have hchars : Base64.decodeChars? .urlSafe text.toList = some bytes := by
      simp only [decode, decodedLength, bind, Except.bind, pure, Except.pure] at h
      split at h
      · simp at h
      · split at h
        · next hc => rw [hc, Except.ok.inj h]
        · simp [throw, throwThe, MonadExceptOf.throw] at h
    rw [encode, ← Base64.decodeChars?_eq_some_iff.1 hchars, String.ofList_toList]
  · rintro rfl
    exact decode_encode bytes

theorem encode_injective {a b : Bytes} (h : encode a = encode b) : a = b := by
  have := decode_encode a
  rw [h, decode_encode] at this
  exact (Except.ok.inj this).symm

end TokenSeal.Base64Url
