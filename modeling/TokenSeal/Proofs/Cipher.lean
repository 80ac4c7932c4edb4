import TokenSeal.Cipher.Cbc
import TokenSeal.Cipher.Gcm
import TokenSeal.Cipher.KeyWrap
import TokenSeal.Proofs.Aes

/-! The modes of the block cipher undo themselves: chaining with padding, counting, and the passes
of key wrapping. -/

namespace TokenSeal

theorem Bytes.xor_xor_cancel {a b : Bytes} (h : a.length ≤ b.length) : xor (xor a b) b = a := by
  induction a generalizing b with
  | nil => simp [xor]
  | cons x a ih =>
    cases b with
    | nil => simp at h
    | cons y b =>
      have hrest := ih (b := b) (by simpa using h)
      have hhead : x ^^^ y ^^^ y = x := by
        rw [UInt8.xor_assoc, UInt8.xor_self, UInt8.xor_zero]
      simp only [xor] at hrest ⊢
      simp only [List.zipWith_cons_cons, hhead, hrest]

/-! ### Pieces of equal length -/

section Chunks

variable {α : Type} {size : Nat}

theorem length_of_mem_chunks (hsize : 0 < size) {items piece : List α}
    (hdvd : size ∣ items.length) (hpiece : piece ∈ chunks size items) : piece.length = size := by
  induction hn : items.length using Nat.strong_induction_on generalizing items with
  | _ n ih =>
    by_cases h : items = []
    · simp [h, chunks_nil] at hpiece
    · have hpos := List.length_pos_iff.2 h
      have hle := Nat.le_of_dvd hpos hdvd
      rw [chunks_eq_cons hsize h] at hpiece
      rcases List.mem_cons.1 hpiece with rfl | hpiece
      · simp [hle]
      · refine ih (items.drop size).length (by rw [List.length_drop]; omega) ?_ hpiece rfl
        rw [List.length_drop]
        exact Nat.dvd_sub hdvd (dvd_refl size)

theorem chunks_flatten (hsize : 0 < size) {pieces : List (List α)}
    (h : ∀ piece ∈ pieces, piece.length = size) : chunks size pieces.flatten = pieces := by
  induction pieces with
  | nil => rfl
  | cons piece rest ih =>
    have hlen : piece.length = size := h piece (by simp)
    have hne : (piece :: rest).flatten ≠ [] := by
      intro hnil
      have hzero := congrArg List.length hnil
      simp [hlen] at hzero
      omega
    rw [chunks_eq_cons hsize hne, List.flatten_cons, List.take_append_of_le_length (by omega),
      List.take_of_length_le (by omega), List.drop_append_of_le_length (by omega),
      List.drop_of_length_le (by omega), List.nil_append, ih fun p hp => h p (by simp [hp])]

theorem length_flatten_pieces {pieces : List (List α)} (h : ∀ piece ∈ pieces, piece.length = size) :
    pieces.flatten.length = pieces.length * size := by
  rw [List.length_flatten, List.map_eq_replicate_iff.2 h, List.sum_replicate_nat]

end Chunks

/-! ### Chaining -/

namespace Cbc

variable {k : Aes.Schedule}

/-- The blocks of a chained ciphertext. -/
def chain (k : Aes.Schedule) : Bytes → List Bytes → List Bytes
  | _, [] => []
  | previous, block :: rest =>
    let c := k.encrypt (Bytes.xor block previous)
    c :: chain k c rest

theorem encryptOnto_eq (previous : Bytes) (done blocks : List Bytes) :
    encryptOnto k previous done blocks = (done.reverse ++ chain k previous blocks).flatten := by
  induction blocks generalizing previous done with
  | nil => simp [encryptOnto, chain]
  | cons block rest ih => simp [encryptOnto, chain, ih]

theorem length_of_mem_chain {previous c : Bytes} {blocks : List Bytes}
    (hc : c ∈ chain k previous blocks) : c.length = 16 := by
  induction blocks generalizing previous with
  | nil => simp [chain] at hc
  | cons block rest ih =>
    rcases List.mem_cons.1 hc with rfl | hc
    · exact k.length_encrypt _
    · exact ih hc

theorem length_chain (previous : Bytes) (blocks : List Bytes) :
    (chain k previous blocks).length = blocks.length := by
  induction blocks generalizing previous with
  | nil => rfl
  | cons block rest ih => simp [chain, ih]

/-- The blocks that a chained ciphertext deciphers to. -/
def unchain (k : Aes.Schedule) : Bytes → List Bytes → List Bytes
  | _, [] => []
  | previous, block :: rest =>
    Bytes.xor (k.decrypt block) previous :: unchain k block rest

theorem decryptOnto_eq (previous : Bytes) (done blocks : List Bytes) :
    decryptOnto k previous done blocks = (done.reverse ++ unchain k previous blocks).flatten := by
  induction blocks generalizing previous done with
  | nil => simp [decryptOnto, unchain]
  | cons block rest ih => simp [decryptOnto, unchain, ih]

theorem length_of_mem_unchain {previous piece : Bytes} {blocks : List Bytes}
    (hprevious : previous.length = 16) (hblocks : ∀ block ∈ blocks, block.length = 16)
    (hpiece : piece ∈ unchain k previous blocks) : piece.length = 16 := by
  induction blocks generalizing previous with
  | nil => simp [unchain] at hpiece
  | cons block rest ih =>
    rcases List.mem_cons.1 hpiece with rfl | hpiece
    · rw [Bytes.length_xor, k.length_decrypt, hprevious]
      rfl
    · exact ih (hblocks block (by simp)) (fun b hb => hblocks b (by simp [hb])) hpiece

theorem length_unchain (previous : Bytes) (blocks : List Bytes) :
    (unchain k previous blocks).length = blocks.length := by
  induction blocks generalizing previous with
  | nil => rfl
  | cons block rest ih => simp [unchain, ih]

theorem unchain_chain (key : Bytes) {previous : Bytes} {blocks : List Bytes}
    (hprevious : previous.length = 16) (hblocks : ∀ block ∈ blocks, block.length = 16) :
    unchain (.ofKey key) previous (chain (.ofKey key) previous blocks) = blocks := by
  induction blocks generalizing previous with
  | nil => rfl
  | cons block rest ih =>
    have hblock : block.length = 16 := hblocks block (by simp)
    have hsum : (Bytes.xor block previous).length = 16 := by
      rw [Bytes.length_xor, hblock, hprevious]
      rfl
    have hrest := ih ((Aes.Schedule.ofKey key).length_encrypt (Bytes.xor block previous))
      fun b hb => hblocks b (by simp [hb])
    rw [chain, unchain, Aes.Schedule.decrypt_encrypt key hsum, Bytes.xor_xor_cancel (by omega),
      hrest]

theorem chain_unchain (key : Bytes) {previous : Bytes} {blocks : List Bytes}
    (hprevious : previous.length = 16) (hblocks : ∀ block ∈ blocks, block.length = 16) :
    chain (.ofKey key) previous (unchain (.ofKey key) previous blocks) = blocks := by
  induction blocks generalizing previous with
  | nil => rfl
  | cons block rest ih =>
    have hblock : block.length = 16 := hblocks block (by simp)
    have hsum : ((Aes.Schedule.ofKey key).decrypt block).length ≤ previous.length := by
      rw [Aes.Schedule.length_decrypt, hprevious]
    have hrest := ih hblock fun b hb => hblocks b (by simp [hb])
    rw [unchain, chain, Bytes.xor_xor_cancel hsum, Aes.Schedule.encrypt_decrypt key hblock, hrest]

/-! ### Padding -/

theorem length_pad (text : Bytes) : (pad text).length = (text.length / 16 + 1) * 16 := by
  simp only [pad, List.length_append, List.length_replicate]
  omega

theorem unpad?_pad (text : Bytes) : unpad? (pad text) = some text := by
  obtain ⟨n, hn⟩ : ∃ n, n = 16 - text.length % 16 := ⟨_, rfl⟩
  have hpad : pad text = text ++ List.replicate n (UInt8.ofNat n) := by rw [pad, ← hn]
  have hpos : 1 ≤ n ∧ n ≤ 16 := by omega
  have hlast : (pad text).getLast? = some (UInt8.ofNat n) := by
    rw [hpad, List.getLast?_append]
    simp [List.getLast?_replicate]
    omega
  have hvalue : (UInt8.ofNat n).toNat = n := by
    simp
    omega
  have hkept : (pad text).length - n = text.length := by
    rw [hpad, List.length_append, List.length_replicate]
    omega
  have hdrop : (pad text).drop text.length = List.replicate n (UInt8.ofNat n) := by
    rw [hpad, List.drop_left]
  have htake : (pad text).take text.length = text := by
    rw [hpad, List.take_left]
  have hle : n ≤ (pad text).length := by
    rw [hpad, List.length_append, List.length_replicate]
    omega
  simp only [unpad?, hlast, hvalue, hkept, hdrop, htake]
  simp [hpos, hle]

/-- Padding is removed only from what has all of it. -/
theorem pad_of_unpad? {padded text : Bytes} (hdvd : 16 ∣ padded.length)
    (h : unpad? padded = some text) : pad text = padded := by
  unfold unpad? at h
  split at h
  · cases h
  · next last hlast =>
    dsimp only at h
    split at h
    · next hpadding =>
      obtain ⟨hpos, hmost, hle, hdrop⟩ := hpadding
      obtain rfl := Option.some.inj h
      have hkept : (padded.take (padded.length - last.toNat)).length =
          padded.length - last.toNat := by
        rw [List.length_take]
        omega
      have hmissing : 16 - (padded.length - last.toNat) % 16 = last.toNat := by omega
      simp only [pad, hkept, hmissing, UInt8.ofNat_toNat]
      rw [← hdrop, List.take_append_drop]
    · cases h

/-! ### Whole texts -/

theorem length_of_mem_chunks_pad {text block : Bytes} (h : block ∈ chunks 16 (pad text)) :
    block.length = 16 :=
  length_of_mem_chunks (by omega) (by rw [length_pad]; exact dvd_mul_left 16 _) h

theorem decryptPadded_eq (k : Aes.Schedule) (iv ciphertext : Bytes) :
    decryptPadded k iv ciphertext = (unchain k iv (chunks 16 ciphertext)).flatten := by
  rw [decryptPadded, decryptOnto_eq, List.reverse_nil, List.nil_append]

theorem encrypt_eq (k : Aes.Schedule) (iv text : Bytes) :
    encrypt k iv text = (chain k iv (chunks 16 (pad text))).flatten := by
  rw [encrypt, encryptOnto_eq, List.reverse_nil, List.nil_append]

theorem decryptPadded_encrypt (key text : Bytes) {iv : Bytes} (hiv : iv.length = 16) :
    decryptPadded (.ofKey key) iv (encrypt (.ofKey key) iv text) = pad text := by
  have hblocks : ∀ block ∈ chunks 16 (pad text), block.length = 16 :=
    fun block hb => length_of_mem_chunks_pad hb
  rw [decryptPadded_eq, encrypt_eq, chunks_flatten (by omega) fun c hc => length_of_mem_chain hc,
    unchain_chain key hiv hblocks, flatten_chunks (by omega)]

theorem length_decryptPadded (k : Aes.Schedule) {iv ciphertext : Bytes} (hiv : iv.length = 16)
    (hdvd : 16 ∣ ciphertext.length) :
    (decryptPadded k iv ciphertext).length = ciphertext.length := by
  have hblocks : ∀ block ∈ chunks 16 ciphertext, block.length = 16 :=
    fun block hb => length_of_mem_chunks (by omega) hdvd hb
  have hflat := length_flatten_pieces hblocks
  rw [flatten_chunks (by omega)] at hflat
  rw [decryptPadded_eq, length_flatten_pieces fun p hp => length_of_mem_unchain hiv hblocks hp,
    length_unchain, hflat]

/-- A ciphertext that deciphers to a padded text is what the text is enciphered to. -/
theorem encrypt_of_unpad? (key : Bytes) {iv ciphertext text : Bytes} (hiv : iv.length = 16)
    (hdvd : 16 ∣ ciphertext.length)
    (h : unpad? (decryptPadded (.ofKey key) iv ciphertext) = some text) :
    encrypt (.ofKey key) iv text = ciphertext := by
  have hblocks : ∀ block ∈ chunks 16 ciphertext, block.length = 16 :=
    fun block hb => length_of_mem_chunks (by omega) hdvd hb
  have hlength := length_decryptPadded (.ofKey key) hiv hdvd
  have hpad : pad text = (unchain (.ofKey key) iv (chunks 16 ciphertext)).flatten := by
    rw [pad_of_unpad? (hlength ▸ hdvd) h, decryptPadded_eq]
  rw [encrypt_eq, hpad,
    chunks_flatten (by omega) fun p hp => length_of_mem_unchain hiv hblocks hp,
    chain_unchain key hiv hblocks, flatten_chunks (by omega)]

theorem length_encrypt (k : Aes.Schedule) (iv text : Bytes) :
    (encrypt k iv text).length = (text.length / 16 + 1) * 16 := by
  have hblocks : ∀ block ∈ chunks 16 (pad text), block.length = 16 :=
    fun block hb => length_of_mem_chunks_pad hb
  have hpad := length_flatten_pieces hblocks
  rw [flatten_chunks (by omega), length_pad] at hpad
  rw [encrypt_eq, length_flatten_pieces fun c hc => length_of_mem_chain hc, length_chain, hpad]

end Cbc

/-! ### Counting -/

namespace Gcm

theorem length_keystreamOnto (k : Aes.Schedule) (iv : Bytes) (n i : Nat) (done : List Bytes) :
    (keystreamOnto k iv n i done).flatten.length = (done.map List.length).sum + n * 16 := by
  induction n generalizing i done with
  | zero => simp [keystreamOnto, List.length_flatten]
  | succ n ih =>
    rw [keystreamOnto, ih]
    simp [Aes.Schedule.length_encrypt]
    omega

theorem length_applyKeystream (k : Aes.Schedule) (iv text : Bytes) :
    (applyKeystream k iv text).length = text.length := by
  rw [applyKeystream, Bytes.length_xor, length_keystreamOnto]
  simp
  omega

theorem applyKeystream_applyKeystream (k : Aes.Schedule) (iv text : Bytes) :
    applyKeystream k iv (applyKeystream k iv text) = text := by
  have hlength := length_applyKeystream k iv text
  rw [applyKeystream, hlength]
  rw [applyKeystream, Bytes.xor_xor_cancel]
  rw [length_keystreamOnto]
  simp
  omega

theorem length_tagOf (k : Aes.Schedule) (iv aad ciphertext : Bytes) :
    (tagOf k iv aad ciphertext).length = tagLength := by
  rw [tagOf, Bytes.length_xor, Aes.Schedule.length_encrypt]
  rfl

theorem decrypt?_encrypt (k : Aes.Schedule) (iv aad text : Bytes) :
    decrypt? k iv aad (encrypt k iv aad text).1 (encrypt k iv aad text).2 = some text := by
  simp [decrypt?, encrypt, applyKeystream_applyKeystream]

theorem encrypt_of_decrypt? {k : Aes.Schedule} {iv aad ciphertext tag text : Bytes}
    (h : decrypt? k iv aad ciphertext tag = some text) :
    encrypt k iv aad text = (ciphertext, tag) := by
  unfold decrypt? at h
  split at h
  · next htag =>
    obtain rfl := Option.some.inj h
    simp only [encrypt, applyKeystream_applyKeystream, htag]
  · cases h

end Gcm

/-! ### Key wrapping -/

namespace KeyWrap

/-- Pieces of eight bytes, so many of them. -/
def ArePieces (n : Nat) (pieces : List Bytes) : Prop :=
  pieces.length = n ∧ ∀ piece ∈ pieces, piece.length = 8

/-- What a pass does to the register and the pieces is undone from the last piece to the first. -/
theorem unwrapPass_wrapPass (key : Bytes) {pieces : List Bytes} {register : Bytes} {t : Nat}
    (done : List Bytes) (hregister : register.length = 8)
    (hpieces : ∀ piece ∈ pieces, piece.length = 8) (ht : 1 ≤ t) :
    ∃ register' pieces',
      wrapPass (.ofKey key) t register done pieces = (register', done.reverse ++ pieces') ∧
      register'.length = 8 ∧ ArePieces pieces.length pieces' ∧
      ∀ acc tail, unwrapPass (.ofKey key) (t + pieces.length - 1) register' acc
        (pieces'.reverse ++ tail) =
          unwrapPass (.ofKey key) (t - 1) register (pieces ++ acc) tail := by
  induction pieces generalizing t register done with
  | nil => exact ⟨register, [], by simp [wrapPass], hregister, by simp [ArePieces], by simp⟩
  | cons piece rest ih =>
    have hpiece : piece.length = 8 := hpieces piece (by simp)
    let k := Aes.Schedule.ofKey key
    let b := k.encrypt (register ++ piece)
    let register₁ := Bytes.xor (b.take 8) (Bytes.ofNat 8 t)
    have hb : b.length = 16 := k.length_encrypt _
    have hregister₁ : register₁.length = 8 := by
      simp [register₁, Bytes.length_xor, Bytes.length_ofNat, hb]
    obtain ⟨register', pieces', hwrap, hlen, hpieces', hback⟩ :=
      ih (t := t + 1) (b.drop 8 :: done) hregister₁ (fun p hp => hpieces p (by simp [hp]))
        (by omega)
    have hxor : Bytes.xor register₁ (Bytes.ofNat 8 t) = b.take 8 :=
      Bytes.xor_xor_cancel (by simp [Bytes.length_ofNat])
    have hdecrypt : k.decrypt b = register ++ piece :=
      Aes.Schedule.decrypt_encrypt key (by simp [hregister, hpiece])
    refine ⟨register', b.drop 8 :: pieces', by simpa [wrapPass] using hwrap, hlen, ?_, ?_⟩
    · refine ⟨by simp [hpieces'.1], ?_⟩
      intro p hp
      rcases List.mem_cons.1 hp with rfl | hp
      · simp [hb]
      · exact hpieces'.2 p hp
    · intro acc tail
      have hstep := hback acc (b.drop 8 :: tail)
      have hn : t + 1 + rest.length - 1 = t + (piece :: rest).length - 1 := by
        simp only [List.length_cons]
        omega
      rw [hn] at hstep
      rw [List.reverse_cons, List.append_assoc, List.singleton_append, hstep, unwrapPass]
      simp only [Nat.add_sub_cancel]
      rw [hxor, List.take_append_drop, hdecrypt, List.take_left' hregister,
        List.drop_left' hregister]
      rfl

theorem unwrapPasses_wrapPasses (key : Bytes) (n m : Nat) {pieces : List Bytes} {register : Bytes}
    {t : Nat} (hregister : register.length = 8) (hpieces : ∀ piece ∈ pieces, piece.length = 8)
    (ht : 1 ≤ t) :
    ∃ register' pieces', wrapPasses (.ofKey key) n t register pieces = (register', pieces') ∧
      register'.length = 8 ∧ ArePieces pieces.length pieces' ∧
      unwrapPasses (.ofKey key) (n + m) (t + n * pieces.length - 1) register' pieces'.reverse =
        unwrapPasses (.ofKey key) m (t - 1) register pieces.reverse := by
  induction n generalizing t m register pieces with
  | zero => exact ⟨register, pieces, rfl, hregister, ⟨rfl, hpieces⟩, by simp⟩
  | succ n ih =>
    obtain ⟨register₁, pieces₁, hwrap₁, hlen₁, hpieces₁, hback₁⟩ :=
      unwrapPass_wrapPass key [] hregister hpieces ht
    obtain ⟨register', pieces', hwrap, hlen, hpieces', hback⟩ :=
      ih (m + 1) (t := t + pieces₁.length) hlen₁ hpieces₁.2 (by omega)
    rw [List.reverse_nil, List.nil_append] at hwrap₁
    refine ⟨register', pieces', ?_, hlen, ?_, ?_⟩
    · rw [wrapPasses, hwrap₁]
      exact hwrap
    · rw [← hpieces₁.1]
      exact hpieces'
    · have hn : n + 1 + m = n + (m + 1) := by omega
      have ht' : t + (n + 1) * pieces.length - 1 =
          t + pieces₁.length + n * pieces₁.length - 1 := by
        rw [hpieces₁.1, Nat.succ_mul]
        omega
      have hundo := hback₁ [] []
      rw [List.append_nil, List.append_nil] at hundo
      rw [hn, ht', hback, unwrapPasses, hpieces₁.1, hundo]
      simp only [unwrapPass, List.length_reverse]
      congr 1
      omega

theorem unwrap?_wrap (kek : Bytes) {key : Bytes} (hdvd : 8 ∣ key.length) (hlen : 16 ≤ key.length) :
    unwrap? (.ofKey kek) (wrap (.ofKey kek) key) = some key := by
  have hpieces : ∀ piece ∈ chunks 8 key, piece.length = 8 :=
    fun piece hp => length_of_mem_chunks (by omega) hdvd hp
  have hinitial : initialRegister.length = 8 := rfl
  obtain ⟨register', pieces', hwrap, hregister, hpieces', hback⟩ :=
    unwrapPasses_wrapPasses kek 6 0 hinitial hpieces (Nat.le_refl 1)
  have hflat : (chunks 8 key).flatten.length = (chunks 8 key).length * 8 :=
    length_flatten_pieces hpieces
  have hflat' := length_flatten_pieces hpieces'.2
  rw [flatten_chunks (by omega)] at hflat
  have hwrapped : wrap (.ofKey kek) key = register' ++ pieces'.flatten := by
    rw [wrap, hwrap]
  have hlength : (wrap (.ofKey kek) key).length = 8 + key.length := by
    rw [hwrapped, List.length_append]
    have := hpieces'.1
    omega
  have hsteps : 1 + 6 * (chunks 8 key).length - 1 = 6 * (chunks 8 key).length := by omega
  rw [unwrap?, if_neg (by omega), hwrapped, List.take_left' hregister, List.drop_left' hregister,
    chunks_flatten (by omega) hpieces'.2]
  simp only [hpieces'.1]
  rw [Nat.add_zero, hsteps] at hback
  rw [hback]
  simp [unwrapPasses, flatten_chunks]

end KeyWrap

end TokenSeal
