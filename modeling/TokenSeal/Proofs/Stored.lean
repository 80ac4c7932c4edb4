import TokenSeal.Deflate.Deflate

/-! The plainest deflater puts its data into stored blocks. Its streams inflate to the data. -/

namespace TokenSeal.Deflate

/-! ### Stored blocks -/

def littleEndian16 (n : Nat) : Bytes :=
  [UInt8.ofNat (n % 256), UInt8.ofNat (n / 256)]

def storedBlock (last : Bool) (data : Bytes) : Bytes :=
  (if last then 1 else 0) :: littleEndian16 data.length ++
    littleEndian16 (storedLimit - data.length) ++ data

def storedBlocks : List Bytes → List Bytes
  | [] => [storedBlock true []]
  | [block] => [storedBlock true block]
  | block :: rest => storedBlock false block :: storedBlocks rest

def store (data : Bytes) : Bytes :=
  (storedBlocks (chunks storedLimit data)).flatten

/-! ### Bits of whole bytes -/

theorem packed_push (bytes : Bytes) (b : UInt8) :
    (packed bytes).push b = packed (bytes ++ [b]) := by
  rw [packed, packed, ← List.push_toArray]
  rfl

theorem get!_packed (before : Bytes) (b : UInt8) (after : Bytes) :
    (packed (before ++ b :: after)).get! before.length = b := by
  simp [packed, ByteArray.get!]

/-- The number that `n` bits spell, the lowest first. -/
def bitsValue (data : ByteArray) : Nat → Nat → Nat
  | _, 0 => 0
  | pos, n + 1 => bitAt data pos + 2 * bitsValue data (pos + 1) n

theorem readBits_eq {data : ByteArray} {pos n : Nat} (h : pos + n ≤ 8 * data.size) :
    readBits data pos n = .ok (bitsValue data pos n, pos + n) := by
  induction n generalizing pos with
  | zero => rfl
  | succ n ih =>
    have hrest := @ih (pos + 1) (by omega)
    rw [readBits, if_pos (by omega), hrest]
    simp only [bitsValue]
    congr 2
    omega

theorem bitAt_byte (data : ByteArray) (i : Nat) {j : Nat} (hj : j < 8) :
    bitAt data (8 * i + j) = (data.get! i).toNat >>> j % 2 := by
  have hdiv : (8 * i + j) / 8 = i := by omega
  have hmod : (8 * i + j) % 8 = j := by omega
  rw [bitAt, hdiv, hmod]

theorem bitsValue_bytes (data : ByteArray) (i : Nat) :
    bitsValue data (8 * i) 16 = (data.get! i).toNat + 256 * (data.get! (i + 1)).toNat := by
  have hlow : ∀ j < 8, bitAt data (8 * i + j) = (data.get! i).toNat >>> j % 2 :=
    fun j hj => bitAt_byte data i hj
  have hhigh : ∀ j < 8, bitAt data (8 * i + (8 + j)) = (data.get! (i + 1)).toNat >>> j % 2 := by
    intro j hj
    rw [← bitAt_byte data (i + 1) hj]
    congr 1
    omega
  have h₀ := (data.get! i).toNat_lt
  have h₁ := (data.get! (i + 1)).toNat_lt
  simp only [bitsValue, Nat.add_assoc, Nat.reduceAdd]
  rw [show 8 * i = 8 * i + 0 by omega]
  simp only [Nat.add_assoc, Nat.zero_add]
  rw [hlow 0 (by omega), hlow 1 (by omega), hlow 2 (by omega), hlow 3 (by omega),
    hlow 4 (by omega), hlow 5 (by omega), hlow 6 (by omega), hlow 7 (by omega),
    hhigh 0 (by omega), hhigh 1 (by omega), hhigh 2 (by omega), hhigh 3 (by omega),
    hhigh 4 (by omega), hhigh 5 (by omega), hhigh 6 (by omega), hhigh 7 (by omega)]
  omega

/-! ### Blocks read back -/

theorem copyStored_append (before block after done : Bytes) {bound : Nat}
    (hroom : done.length + block.length ≤ bound) :
    copyStored (packed (before ++ block ++ after)) bound block.length before.length (packed done) =
      ⟨packed (done ++ block), .ok (8 * (before ++ block).length)⟩ := by
  induction block generalizing before done with
  | nil => simp [copyStored]
  | cons b block ih =>
    simp only [List.length_cons] at hroom
    have hrest := ih (before ++ [b]) (done ++ [b]) (by simp; omega)
    have hstream : before ++ b :: block ++ after = before ++ [b] ++ block ++ after := by simp
    have hmore : before.length < (packed (before ++ b :: block ++ after)).size := by
      rw [size_packed]
      simp
    have hbyte : (packed (before ++ b :: block ++ after)).get! before.length = b := by
      rw [List.append_assoc, List.cons_append, get!_packed]
    rw [List.length_cons, copyStored, if_pos hmore, if_pos (by rw [size_packed]; omega), hbyte,
      packed_push]
    rw [List.length_append, List.length_singleton, ← hstream] at hrest
    rw [hrest]
    simp

theorem length_storedBlock (last : Bool) (block : Bytes) :
    (storedBlock last block).length = 5 + block.length := by
  simp [storedBlock, littleEndian16]
  omega

theorem readBits_littleEndian16 (before after : Bytes) {n : Nat} (h : n ≤ storedLimit) :
    readBits (packed (before ++ littleEndian16 n ++ after)) (8 * before.length) 16 =
      .ok (n, 8 * (before ++ littleEndian16 n).length) := by
  simp only [storedLimit] at h
  have hlow : (packed (before ++ littleEndian16 n ++ after)).get! before.length =
      UInt8.ofNat (n % 256) := by
    have hbyte := get!_packed before (UInt8.ofNat (n % 256)) (UInt8.ofNat (n / 256) :: after)
    simpa [littleEndian16] using hbyte
  have hhigh : (packed (before ++ littleEndian16 n ++ after)).get! (before.length + 1) =
      UInt8.ofNat (n / 256) := by
    have hbyte := get!_packed (before ++ [UInt8.ofNat (n % 256)]) (UInt8.ofNat (n / 256)) after
    simpa [littleEndian16] using hbyte
  have hsize : (packed (before ++ littleEndian16 n ++ after)).size =
      before.length + 2 + after.length := by
    rw [size_packed]
    simp [littleEndian16]
    omega
  have hvalue : (UInt8.ofNat (n % 256)).toNat + 256 * (UInt8.ofNat (n / 256)).toNat = n := by
    simp
    omega
  rw [readBits_eq (by omega), bitsValue_bytes, hlow, hhigh, hvalue]
  simp [littleEndian16]
  omega

/-- A stored block behind the three bits at its front. -/
theorem readStored_storedBlock (before block after done : Bytes) (last : Bool) {bound : Nat}
    (hblock : block.length ≤ storedLimit) (hroom : done.length + block.length ≤ bound) :
    readStored (packed (before ++ storedBlock last block ++ after)) bound (8 * before.length + 3)
      (packed done) =
        ⟨packed (done ++ block), .ok (8 * (before ++ storedBlock last block).length)⟩ := by
  let flagged : Bytes := before ++ [if last then 1 else 0]
  let sized := flagged ++ littleEndian16 block.length
  let headed := sized ++ littleEndian16 (storedLimit - block.length)
  have hspelled : before ++ storedBlock last block = headed ++ block := by
    simp [storedBlock, headed, sized, flagged]
  have hstart : 8 * ((8 * before.length + 3 + 7) / 8) = 8 * flagged.length := by
    simp only [flagged, List.length_append, List.length_singleton]
    omega
  have hlength : readBits (packed (headed ++ block ++ after)) (8 * flagged.length) 16 =
      .ok (block.length, 8 * sized.length) := by
    have h := readBits_littleEndian16 flagged
      (littleEndian16 (storedLimit - block.length) ++ block ++ after) hblock
    simpa only [headed, sized, List.append_assoc] using h
  have hcomplement : readBits (packed (headed ++ block ++ after)) (8 * sized.length) 16 =
      .ok (storedLimit - block.length, 8 * headed.length) := by
    have h := readBits_littleEndian16 sized (block ++ after) (Nat.sub_le _ block.length)
    simpa only [headed, List.append_assoc] using h
  have hsum : block.length + (storedLimit - block.length) = 0xffff := Nat.add_sub_cancel' hblock
  rw [hspelled]
  simp only [readStored, hstart, hlength, hcomplement]
  rw [if_pos hsum, Nat.mul_div_cancel_left _ (by omega)]
  exact copyStored_append headed block after done hroom

theorem readBlocks_storedBlock (before block after done : Bytes) (last : Bool) {bound : Nat}
    (fuel : Nat) (hblock : block.length ≤ storedLimit)
    (hroom : done.length + block.length ≤ bound) :
    readBlocks (packed (before ++ storedBlock last block ++ after)) bound (fuel + 1)
      (8 * before.length) (packed done) =
        if last then
          (packed (done ++ block), .finished (before ++ storedBlock last block).length)
        else readBlocks (packed (before ++ storedBlock last block ++ after)) bound fuel
          (8 * (before ++ storedBlock last block).length) (packed (done ++ block)) := by
  let data := packed (before ++ storedBlock last block ++ after)
  have hsize : data.size = before.length + (5 + block.length) + after.length := by
    simp [data, size_packed, length_storedBlock, Nat.add_assoc]
  obtain ⟨rest, hrest⟩ : ∃ rest, storedBlock last block = (if last then 1 else 0) :: rest :=
    ⟨_, rfl⟩
  have hbyte : data.get! before.length = if last then 1 else 0 := by
    have h := get!_packed before (if last then 1 else 0) (rest ++ after)
    simpa [data, hrest] using h
  have hlast : readBits data (8 * before.length) 1 =
      .ok (if last then 1 else 0, 8 * before.length + 1) := by
    rw [readBits_eq (by omega)]
    simp only [bitsValue]
    rw [show 8 * before.length = 8 * before.length + 0 by omega, bitAt_byte _ _ (by omega), hbyte]
    cases last <;> rfl
  have hkind : readBits data (8 * before.length + 1) 2 = .ok (0, 8 * before.length + 3) := by
    rw [readBits_eq (by omega)]
    simp only [bitsValue, Nat.add_assoc, Nat.reduceAdd]
    rw [bitAt_byte _ _ (by omega), bitAt_byte _ _ (by omega), hbyte]
    cases last <;> rfl
  have hread := readStored_storedBlock before block after done last hblock hroom
  change readBlocks data bound _ _ _ = _
  change readStored data bound _ _ = _ at hread
  simp only [readBlocks, hlast, hkind]
  rw [readBlock, if_pos rfl, hread]
  cases last with
  | false => simp [data]
  | true => simp; omega

theorem readBlocks_stored (blocks : List Bytes) (before done : Bytes) {bound fuel : Nat}
    (hblocks : ∀ block ∈ blocks, block.length ≤ storedLimit)
    (hroom : done.length + blocks.flatten.length ≤ bound) (hfuel : blocks.length < fuel) :
    readBlocks (packed (before ++ (storedBlocks blocks).flatten)) bound fuel (8 * before.length)
      (packed done) =
        (packed (done ++ blocks.flatten),
          .finished (before ++ (storedBlocks blocks).flatten).length) := by
  induction blocks using storedBlocks.induct generalizing before done fuel with
  | case1 =>
    obtain ⟨fuel, rfl⟩ : ∃ n, fuel = n + 1 := ⟨fuel - 1, by omega⟩
    have hstep := readBlocks_storedBlock before [] [] done true fuel (Nat.zero_le _) hroom
    simpa [storedBlocks] using hstep
  | case2 block =>
    obtain ⟨fuel, rfl⟩ : ∃ n, fuel = n + 1 := ⟨fuel - 1, by omega⟩
    have hstep := readBlocks_storedBlock before block [] done true fuel (hblocks block (by simp))
      (by simpa using hroom)
    simpa [storedBlocks] using hstep
  | case3 block rest hrest ih =>
    obtain ⟨fuel, rfl⟩ : ∃ n, fuel = n + 1 := ⟨fuel - 1, by omega⟩
    rw [List.flatten_cons, List.length_append] at hroom
    have hroom₁ : done.length + block.length ≤ bound := by omega
    have hroom₂ : (done ++ block).length + rest.flatten.length ≤ bound := by
      rw [List.length_append]
      omega
    have hfuel' : rest.length < fuel := by simpa using hfuel
    have hstep := readBlocks_storedBlock before block (storedBlocks rest).flatten done false fuel
      (hblocks block (by simp)) hroom₁
    have hnext := ih (before ++ storedBlock false block) (done ++ block)
      (fun b hb => hblocks b (by simp [hb])) hroom₂ hfuel'
    rw [storedBlocks, List.flatten_cons, ← List.append_assoc]
    · rw [hstep, if_neg (by simp), hnext]
      simp
    · exact hrest

theorem length_le_storedBlocks (blocks : List Bytes) :
    blocks.length ≤ (storedBlocks blocks).flatten.length := by
  induction blocks using storedBlocks.induct with
  | case1 => simp
  | case2 block =>
    simp [storedBlocks, length_storedBlock]
    omega
  | case3 block rest hrest ih =>
    rw [storedBlocks, List.flatten_cons, List.length_append, length_storedBlock, List.length_cons]
    · omega
    · exact hrest

theorem restores_store : Restores store := by
  intro data
  have hflat : (chunks storedLimit data).flatten = data := flatten_chunks (by decide) data
  have hfuel : (chunks storedLimit data).length < 8 * (packed (store data)).size + 1 := by
    have hle := length_le_storedBlocks (chunks storedLimit data)
    rw [size_packed, store]
    omega
  have hroom : ([] : Bytes).length + (chunks storedLimit data).flatten.length ≤ data.length :=
    Nat.le_of_eq (by rw [hflat, List.length_nil, Nat.zero_add])
  have hread := readBlocks_stored (chunks storedLimit data) [] []
    (fun block hb => length_le_of_mem_chunks (by decide) hb) hroom hfuel
  rw [hflat] at hread
  exact ⟨_, hread⟩

end TokenSeal.Deflate
