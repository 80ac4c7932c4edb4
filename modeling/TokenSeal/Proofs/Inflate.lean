import Mathlib
import TokenSeal.Deflate.Inflate
import TokenSeal.Proofs.Draw

/-! Reading a DEFLATE stream to its end. What was read is read again when more input follows it and
when there is more room for the output, and with less room the output is cut. -/

namespace TokenSeal.Deflate

/-! ### Arrays that begin alike -/

/-- The second array goes on where the first one ends. -/
def Starts (a b : ByteArray) : Prop := a.data.toList <+: b.data.toList

namespace Starts

variable {a b c : ByteArray}

theorem refl (a : ByteArray) : Starts a a := List.prefix_rfl

theorem trans (h : Starts a b) (h' : Starts b c) : Starts a c := List.IsPrefix.trans h h'

theorem push (a : ByteArray) (x : UInt8) : Starts a (a.push x) := by
  simp [Starts, ByteArray.push]

theorem size_le (h : Starts a b) : a.size ≤ b.size := List.IsPrefix.length_le h

theorem get! (h : Starts a b) {i : Nat} (hi : i < a.size) : b.get! i = a.get! i := by
  obtain ⟨rest, hrest⟩ := h
  have hi' : i < a.data.toList.length := hi
  have hget : b.data[i]? = a.data[i]? := by
    rw [← Array.getElem?_toList, ← Array.getElem?_toList, ← hrest, List.getElem?_append_left hi']
  rw [ByteArray.get!, ByteArray.get!, Array.getElem!_eq_getD, Array.getElem!_eq_getD,
    Array.getD_eq_getD_getElem?, Array.getD_eq_getD_getElem?, hget]

theorem bitAt (h : Starts a b) {pos : Nat} (hpos : pos < 8 * a.size) :
    bitAt b pos = Deflate.bitAt a pos := by
  rw [Deflate.bitAt, Deflate.bitAt, h.get! (by omega)]

end Starts

/-! ### Bits and codes -/

section Read

variable {data data' : ByteArray} {pos next : Nat}

theorem readBits_of_starts (hd : Starts data data') {n v : Nat} (hpos : pos ≤ 8 * data.size)
    (h : readBits data pos n = .ok (v, next)) :
    readBits data' pos n = .ok (v, next) ∧ next ≤ 8 * data.size := by
  induction n generalizing pos v with
  | zero =>
    cases h
    exact ⟨rfl, hpos⟩
  | succ n ih =>
    by_cases hmore : pos < 8 * data.size
    · rw [readBits, if_pos hmore] at h
      cases hrest : readBits data (pos + 1) n with
      | error halt =>
        rw [hrest] at h
        cases h
      | ok found =>
        obtain ⟨high, after⟩ := found
        rw [hrest] at h
        cases h
        obtain ⟨hagain, hle⟩ := ih (by omega) hrest
        have hsize := hd.size_le
        rw [readBits, if_pos (by omega), hagain, hd.bitAt hmore]
        exact ⟨rfl, hle⟩
    · rw [readBits, if_neg hmore] at h
      cases h

theorem Code.read_of_starts (hd : Starts data data') {c : Code} {symbol : Nat}
    (h : c.read data pos = .ok (symbol, next)) :
    c.read data' pos = .ok (symbol, next) ∧ next ≤ 8 * data.size := by
  have hsize := hd.size_le
  have hfrom : ∀ fuel length pos code first index,
      c.readFrom data fuel length pos code first index = .ok (symbol, next) →
        c.readFrom data' fuel length pos code first index = .ok (symbol, next) ∧
          next ≤ 8 * data.size := by
    intro fuel
    induction fuel with
    | zero => simp [Code.readFrom]
    | succ fuel ih =>
      intro length pos code first index h
      by_cases hmore : pos < 8 * data.size
      · have hmore' : pos < 8 * data'.size := by omega
        simp only [Code.readFrom, hmore, hmore', if_true, hd.bitAt hmore] at h ⊢
        split at h
        · next hfound =>
          cases h
          exact ⟨if_pos hfound, hmore⟩
        · next hlater =>
          split at h
          · cases h
          · next hgo =>
            rw [if_neg hlater, if_neg hgo]
            exact ih _ _ _ _ _ h
      · simp [Code.readFrom, hmore] at h
  exact hfrom _ _ _ _ _ _ h

theorem readMatch_of_starts (hd : Starts data data') {distances : Code} {symbol : Nat}
    {found : Nat × Nat} (hpos : pos ≤ 8 * data.size)
    (h : readMatch distances data symbol pos = .ok (found, next)) :
    readMatch distances data' symbol pos = .ok (found, next) := by
  unfold readMatch at h ⊢
  cases hlength : lengthTable[symbol - 257]? with
  | none => simp [hlength] at h
  | some entry =>
    simp only [hlength] at h ⊢
    obtain ⟨⟨more, pos₁⟩, hmore, h⟩ := bind_eq_ok.1 h
    obtain ⟨⟨far, pos₂⟩, hfar, h⟩ := bind_eq_ok.1 h
    rw [(readBits_of_starts hd hpos hmore).1, ok_bind]
    obtain ⟨hfar', hle⟩ := Code.read_of_starts hd hfar
    rw [hfar', ok_bind]
    dsimp only at h ⊢
    cases hdistance : distanceTable[far]? with
    | none => simp [hdistance] at h
    | some entry =>
      simp only [hdistance] at h ⊢
      obtain ⟨⟨extra, pos₃⟩, hextra, h⟩ := bind_eq_ok.1 h
      rw [(readBits_of_starts hd hle hextra).1, ok_bind]
      exact h

theorem readShortLengths_of_starts (hd : Starts data data') {n : Nat} {done lengths : List Nat}
    (hpos : pos ≤ 8 * data.size) (h : readShortLengths data n pos done = .ok (lengths, next)) :
    readShortLengths data' n pos done = .ok (lengths, next) := by
  induction n generalizing pos done with
  | zero => exact h
  | succ n ih =>
    rw [readShortLengths] at h ⊢
    cases hread : readBits data pos 3 with
    | error halt =>
      rw [hread] at h
      cases h
    | ok found =>
      obtain ⟨hagain, hle⟩ := readBits_of_starts hd hpos hread
      rw [hread] at h
      rw [hagain]
      exact ih hle h

theorem readLengths_of_starts (hd : Starts data data') {code : Code} {fuel left : Nat}
    {done lengths : List Nat} (h : readLengths code data fuel left pos done = .ok (lengths, next)) :
    readLengths code data' fuel left pos done = .ok (lengths, next) := by
  induction fuel generalizing left pos done with
  | zero => cases h
  | succ fuel ih =>
    rw [readLengths] at h ⊢
    by_cases hleft : left = 0
    · rw [if_pos hleft] at h ⊢
      exact h
    rw [if_neg hleft] at h ⊢
    cases hread : code.read data pos with
    | error halt =>
      rw [hread] at h
      cases h
    | ok found =>
      obtain ⟨symbol, after⟩ := found
      obtain ⟨hagain, hle⟩ := Code.read_of_starts hd hread
      simp only [hread] at h
      simp only [hagain]
      by_cases hlength : symbol < 16
      · rw [if_pos hlength] at h ⊢
        exact ih h
      rw [if_neg hlength] at h ⊢
      by_cases hnone : symbol = 16 ∧ done.isEmpty = true
      · rw [if_pos hnone] at h
        cases h
      rw [if_neg hnone] at h ⊢
      cases hmore : readBits data after (if symbol = 16 then 2 else if symbol = 17 then 3 else 7) with
      | error halt =>
        simp only [hmore] at h
        cases h
      | ok found =>
        simp only [hmore] at h
        simp only [(readBits_of_starts hd hle hmore).1]
        by_cases htimes : left < found.1 + if symbol = 18 then 11 else 3
        · rw [if_pos htimes] at h
          cases h
        · rw [if_neg htimes] at h ⊢
          exact ih h

theorem readCodes_of_starts (hd : Starts data data') {codes : Code × Code}
    (hpos : pos ≤ 8 * data.size) (h : readCodes data pos = .ok (codes, next)) :
    readCodes data' pos = .ok (codes, next) := by
  unfold readCodes at h ⊢
  obtain ⟨⟨literals, pos₁⟩, hliterals, h⟩ := bind_eq_ok.1 h
  obtain ⟨hliterals', hle₁⟩ := readBits_of_starts hd hpos hliterals
  obtain ⟨⟨distances, pos₂⟩, hdistances, h⟩ := bind_eq_ok.1 h
  obtain ⟨hdistances', hle₂⟩ := readBits_of_starts hd hle₁ hdistances
  obtain ⟨⟨shorts, pos₃⟩, hshorts, h⟩ := bind_eq_ok.1 h
  obtain ⟨hshorts', hle₃⟩ := readBits_of_starts hd hle₂ hshorts
  rw [hliterals', ok_bind]
  dsimp only
  rw [hdistances', ok_bind]
  dsimp only
  rw [hshorts', ok_bind]
  dsimp only at h ⊢
  by_cases hmany : 286 < literals + 257 ∨ 30 < distances + 1
  · rw [if_pos hmany] at h
    cases h
  rw [if_neg hmany] at h ⊢
  obtain ⟨⟨lengths, pos₄⟩, hlengths, h⟩ := bind_eq_ok.1 h
  rw [readShortLengths_of_starts hd hle₃ hlengths, ok_bind]
  dsimp only at h ⊢
  by_cases hcomplete : (Code.ofLengths (orderedLengths lengths)).isComplete = false
  · rw [if_pos hcomplete] at h
    cases h
  rw [if_neg hcomplete] at h ⊢
  obtain ⟨⟨all, pos₅⟩, hall, h⟩ := bind_eq_ok.1 h
  rw [readLengths_of_starts hd hall, ok_bind]
  exact h

end Read

/-! ### Parts of blocks -/

section Parts

variable {data data' out out' : ByteArray} {bound : Nat}

theorem copyMatch_steady {distance length : Nat}
    (h : copyMatch bound distance length out = (out', true)) :
    Starts out out' ∧
      (∀ b, out'.size ≤ b → copyMatch b distance length out = (out', true)) ∧
      ∀ b, out.size ≤ b → b < out'.size →
        ∃ cut, copyMatch b distance length out = (cut, false) ∧ cut.size = b ∧ Starts cut out' := by
  induction length generalizing out with
  | zero =>
    cases h
    exact ⟨.refl _, fun _ _ => rfl, fun b hlo hhi => absurd hlo (Nat.not_le.2 hhi)⟩
  | succ length ih =>
    by_cases hroom : out.size < bound
    · simp only [copyMatch, hroom, if_true] at h
      obtain ⟨hstarts, hagain, hcut⟩ := ih h
      have hsize := hstarts.size_le
      rw [ByteArray.size_push] at hsize
      have hwhole := (Starts.push out (byteBack out distance)).trans hstarts
      refine ⟨hwhole, fun b hb => ?_, fun b hlo hhi => ?_⟩
      · rw [copyMatch, if_pos (by omega)]
        exact hagain b hb
      · by_cases hb : out.size < b
        · rw [copyMatch, if_pos hb]
          exact hcut b (by rw [ByteArray.size_push]; omega) hhi
        · exact ⟨out, by rw [copyMatch, if_neg hb], by omega, hwhole⟩
    · simp [copyMatch, hroom] at h

/-- A part that comes to its end does so again when more input follows and there is room for the
output. With less room it gives the front of the output. -/
structure Steady (part : ByteArray → Nat → Progress) (data out out' : ByteArray) (next : Nat) :
    Prop where
  starts : Starts out out'
  within : next ≤ 8 * data.size
  again : ∀ data' b, Starts data data' → out'.size ≤ b → part data' b = ⟨out', .ok next⟩
  cut : ∀ b, out.size ≤ b → b < out'.size →
    ∃ cut, part data b = ⟨cut, .error .full⟩ ∧ cut.size = b ∧ Starts cut out'

namespace Steady

variable {part rest : ByteArray → Nat → Progress} {next : Nat}

theorem congr (hrest : Steady rest data out out' next)
    (heq : ∀ data' b, Starts data data' → part data' b = rest data' b) :
    Steady part data out out' next := by
  refine ⟨hrest.starts, hrest.within, fun data' b hd hb => ?_, fun b hlo hhi => ?_⟩
  · rw [heq data' b hd]
    exact hrest.again data' b hd hb
  · rw [heq data b (.refl data)]
    exact hrest.cut b hlo hhi

theorem done (hnext : next ≤ 8 * data.size)
    (heq : ∀ data' b, Starts data data' → part data' b = ⟨out, .ok next⟩) :
    Steady part data out out next :=
  ⟨.refl out, hnext, fun data' b hd _ => heq data' b hd,
    fun _ hlo hhi => absurd hlo (Nat.not_le.2 hhi)⟩

theorem push {x : UInt8} (hrest : Steady rest data (out.push x) out' next)
    (heq : ∀ data' b, Starts data data' →
      part data' b = if out.size < b then rest data' b else ⟨out, .error .full⟩) :
    Steady part data out out' next := by
  have hsize := hrest.starts.size_le
  rw [ByteArray.size_push] at hsize
  have hwhole := (Starts.push out x).trans hrest.starts
  refine ⟨hwhole, hrest.within, fun data' b hd hb => ?_, fun b hlo hhi => ?_⟩
  · rw [heq data' b hd, if_pos (by omega)]
    exact hrest.again data' b hd hb
  · rw [heq data b (.refl data)]
    by_cases hb : out.size < b
    · rw [if_pos hb]
      exact hrest.cut b (by rw [ByteArray.size_push]; omega) hhi
    · rw [if_neg hb]
      exact ⟨out, rfl, by omega, hwhole⟩

theorem copied {distance length : Nat} {written : ByteArray}
    (hcopy : copyMatch bound distance length out = (written, true))
    (hrest : Steady rest data written out' next)
    (hfits : ∀ data' b, Starts data data' →
      copyMatch b distance length out = (written, true) → part data' b = rest data' b)
    (hfull : ∀ b cut, copyMatch b distance length out = (cut, false) →
      part data b = ⟨cut, .error .full⟩) :
    Steady part data out out' next := by
  obtain ⟨hstarts, hcopyAgain, hcopyCut⟩ := copyMatch_steady hcopy
  have hsize := hrest.starts.size_le
  refine ⟨hstarts.trans hrest.starts, hrest.within, fun data' b hd hb => ?_,
    fun b hlo hhi => ?_⟩
  · rw [hfits data' b hd (hcopyAgain b (by omega))]
    exact hrest.again data' b hd hb
  · by_cases hb : written.size ≤ b
    · rw [hfits data b (.refl data) (hcopyAgain b hb)]
      exact hrest.cut b hb hhi
    · obtain ⟨cut, hcut, hcutSize, hcutStarts⟩ := hcopyCut b hlo (by omega)
      exact ⟨cut, hfull b cut hcut, hcutSize, hcutStarts.trans hrest.starts⟩

end Steady

theorem readSymbols_steady {literals distances : Code} {fuel pos next : Nat}
    (h : readSymbols literals distances data bound fuel pos out = ⟨out', .ok next⟩) :
    Steady (fun data bound => readSymbols literals distances data bound fuel pos out) data out out'
      next := by
  induction fuel generalizing pos out with
  | zero => simp [readSymbols] at h
  | succ fuel ih =>
    simp only [readSymbols] at h
    cases hread : literals.read data pos with
    | error halt =>
      rw [hread] at h
      cases h
    | ok found =>
      obtain ⟨symbol, after⟩ := found
      have hread' : ∀ data', Starts data data' → literals.read data' pos = .ok (symbol, after) :=
        fun data' hd => (Code.read_of_starts hd hread).1
      have hwithin := (Code.read_of_starts (.refl data) hread).2
      simp only [hread] at h
      by_cases hliteral : symbol < endOfBlock
      · by_cases hroom : out.size < bound
        · simp only [hliteral, hroom, if_true] at h
          exact (ih h).push fun data' b hd => by
            simp only [readSymbols, hread' data' hd, hliteral, if_true]
        · simp [hliteral, hroom] at h
      by_cases hend : symbol = endOfBlock
      · rw [if_neg hliteral, if_pos hend] at h
        cases h
        exact .done hwithin fun data' b hd => by simp [readSymbols, hread' data' hd, hend]
      simp only [hliteral, hend, if_false] at h
      cases hmatch : readMatch distances data symbol after with
      | error halt =>
        rw [hmatch] at h
        cases h
      | ok found =>
        obtain ⟨⟨length, distance⟩, after'⟩ := found
        simp only [hmatch] at h
        rcases hcopy : copyMatch bound distance length out with ⟨written, _ | _⟩
        · rw [hcopy] at h
          cases h
        · rw [hcopy] at h
          refine (ih h).copied hcopy (fun data' b hd hfits => ?_) (fun b cut hfull => ?_)
          · simp only [readSymbols, hread' data' hd, hliteral, hend, if_false,
              readMatch_of_starts hd hwithin hmatch, hfits]
          · simp only [readSymbols, hread, hliteral, hend, if_false, hmatch, hfull]

theorem readSymbols_fuel {literals distances : Code} {fuel fuel' pos next : Nat}
    (hfuel : fuel ≤ fuel')
    (h : readSymbols literals distances data bound fuel pos out = ⟨out', .ok next⟩) :
    readSymbols literals distances data bound fuel' pos out = ⟨out', .ok next⟩ := by
  induction fuel generalizing fuel' pos out with
  | zero => simp [readSymbols] at h
  | succ fuel ih =>
    obtain ⟨fuel', rfl⟩ : ∃ n, fuel' = n + 1 := ⟨fuel' - 1, by omega⟩
    have hle : fuel ≤ fuel' := by omega
    rw [readSymbols] at h ⊢
    split at h
    · cases h
    split at h
    · next hliteral =>
      rw [if_pos hliteral]
      split at h
      · next hroom =>
        rw [if_pos hroom]
        exact ih hle h
      · cases h
    next hliteral =>
    rw [if_neg hliteral]
    split at h
    · next hend =>
      rw [if_pos hend]
      exact h
    next hend =>
    rw [if_neg hend]
    split at h
    · cases h
    split at h
    · exact ih hle h
    · cases h

theorem copyStored_steady {left i next : Nat} (hi : i ≤ data.size)
    (h : copyStored data bound left i out = ⟨out', .ok next⟩) :
    Steady (fun data bound => copyStored data bound left i out) data out out' next := by
  induction left generalizing i out with
  | zero =>
    cases h
    exact .done (Nat.mul_le_mul_left 8 hi) fun _ _ _ => rfl
  | succ left ih =>
    by_cases hmore : i < data.size
    · by_cases hroom : out.size < bound
      · simp only [copyStored, hmore, hroom, if_true] at h
        refine (ih hmore h).push fun data' b hd => ?_
        have hmore' : i < data'.size := Nat.lt_of_lt_of_le hmore hd.size_le
        simp only [copyStored, hmore', if_true, hd.get! hmore]
      · simp [copyStored, hmore, hroom] at h
    · simp [copyStored, hmore] at h

theorem readStored_steady {pos next : Nat} (hpos : pos ≤ 8 * data.size)
    (h : readStored data bound pos out = ⟨out', .ok next⟩) :
    Steady (fun data bound => readStored data bound pos out) data out out' next := by
  have hstart : 8 * ((pos + 7) / 8) ≤ 8 * data.size := by omega
  simp only [readStored] at h
  cases hlength : readBits data (8 * ((pos + 7) / 8)) 16 with
  | error halt =>
    rw [hlength] at h
    cases h
  | ok found =>
    obtain ⟨length, after⟩ := found
    have hle := (readBits_of_starts (.refl data) hstart hlength).2
    simp only [hlength] at h
    cases hcomplement : readBits data after 16 with
    | error halt =>
      rw [hcomplement] at h
      cases h
    | ok found =>
      obtain ⟨complement, after'⟩ := found
      have hle' := (readBits_of_starts (.refl data) hle hcomplement).2
      simp only [hcomplement] at h
      by_cases hcheck : length + complement = 0xffff
      · rw [if_pos hcheck] at h
        exact (copyStored_steady (by omega) h).congr fun data' b hd => by
          simp only [readStored, (readBits_of_starts hd hstart hlength).1,
            (readBits_of_starts hd hle hcomplement).1, hcheck, if_true]
      · rw [if_neg hcheck] at h
        cases h

/-- A block of symbols, with the effort that the input allows. -/
theorem readSymbols_steady_size {literals distances : Code} {pos next : Nat}
    (h : readSymbols literals distances data bound (8 * data.size + 1) pos out = ⟨out', .ok next⟩) :
    Steady (fun data bound => readSymbols literals distances data bound (8 * data.size + 1) pos out)
      data out out' next := by
  obtain ⟨hstarts, hnext, hagain, hcut⟩ := readSymbols_steady h
  refine ⟨hstarts, hnext, fun data' b hd hb => ?_, hcut⟩
  have hsize := hd.size_le
  exact readSymbols_fuel (by omega) (hagain data' b hd hb)

theorem readBlock_steady {kind pos next : Nat} (hpos : pos ≤ 8 * data.size)
    (h : readBlock data bound kind pos out = ⟨out', .ok next⟩) :
    Steady (fun data bound => readBlock data bound kind pos out) data out out' next := by
  by_cases hstored : kind = 0
  · simp only [readBlock, hstored, if_true] at h ⊢
    exact readStored_steady hpos h
  by_cases hfixed : kind = 1
  · simp only [readBlock, hfixed, if_true] at h ⊢
    exact readSymbols_steady_size h
  by_cases hdynamic : kind = 2
  · simp only [readBlock, hdynamic, if_true] at h ⊢
    cases hcodes : readCodes data pos with
    | error halt =>
      rw [hcodes] at h
      cases h
    | ok found =>
      obtain ⟨⟨literals, distances⟩, after⟩ := found
      simp only [hcodes] at h
      exact (readSymbols_steady_size h).congr fun data' b hd => by
        simp only [readCodes_of_starts hd hpos hcodes]
        rfl
  · simp [readBlock, hstored, hfixed, hdynamic] at h

/-! Nothing but the last block finishes a stream. -/

theorem ending_ne_finished (halt : Halt) (used : Nat) : halt.ending ≠ .finished used := by
  cases halt <;> simp [Halt.ending]

theorem readSymbols_ne_finished {literals distances : Code} {fuel pos used : Nat} :
    (readSymbols literals distances data bound fuel pos out).next ≠ .error (.finished used) := by
  induction fuel generalizing pos out with
  | zero => simp [readSymbols]
  | succ fuel ih =>
    simp only [readSymbols]
    split
    · simp [ending_ne_finished]
    split
    · split
      · exact ih
      · simp
    split
    · simp
    split
    · simp [ending_ne_finished]
    split
    · exact ih
    · simp

theorem copyStored_ne_finished {left i used : Nat} :
    (copyStored data bound left i out).next ≠ .error (.finished used) := by
  induction left generalizing i out with
  | zero => simp [copyStored]
  | succ left ih =>
    simp only [copyStored]
    split
    · split
      · exact ih
      · simp
    · simp

theorem readBlock_ne_finished {kind pos used : Nat} :
    (readBlock data bound kind pos out).next ≠ .error (.finished used) := by
  simp only [readBlock]
  split
  · simp only [readStored]
    split
    · simp [ending_ne_finished]
    split
    · simp [ending_ne_finished]
    split
    · exact copyStored_ne_finished
    · simp
  split
  · exact readSymbols_ne_finished
  split
  · split
    · simp [ending_ne_finished]
    · exact readSymbols_ne_finished
  · simp

/-- What is said of a part holds of a stream that is read to its end. -/
theorem readBlocks_steady {fuel pos used : Nat} (hpos : pos ≤ 8 * data.size)
    (h : readBlocks data bound fuel pos out = (out', .finished used)) :
    Starts out out' ∧ used ≤ data.size ∧
      (∀ data' b fuel', Starts data data' → out'.size ≤ b → fuel ≤ fuel' →
        readBlocks data' b fuel' pos out = (out', .finished used)) ∧
      ∀ b, out.size ≤ b → b < out'.size →
        ∃ cut, readBlocks data b fuel pos out = (cut, .full) ∧ cut.size = b ∧ Starts cut out' := by
  induction fuel generalizing pos out with
  | zero => cases h
  | succ fuel ih =>
    rw [readBlocks] at h
    cases hlast : readBits data pos 1 with
    | error halt =>
      rw [hlast] at h
      cases halt <;> cases h
    | ok found =>
      obtain ⟨last, pos₁⟩ := found
      have hle₁ := (readBits_of_starts (.refl data) hpos hlast).2
      simp only [hlast] at h
      cases hkind : readBits data pos₁ 2 with
      | error halt =>
        rw [hkind] at h
        cases halt <;> cases h
      | ok found =>
        obtain ⟨kind, pos₂⟩ := found
        have hle₂ := (readBits_of_starts (.refl data) hle₁ hkind).2
        simp only [hkind] at h
        rcases hblock : readBlock data bound kind pos₂ out with ⟨written, ending | pos₃⟩
        · rw [hblock, Prod.mk.injEq] at h
          have hnext := congrArg Progress.next hblock
          rw [h.2] at hnext
          exact absurd hnext readBlock_ne_finished
        · rw [hblock] at h
          obtain ⟨hstarts, hle₃, hagain, hcut⟩ := readBlock_steady hle₂ hblock
          -- With more input and more room the block is read as before, and what follows decides.
          have hstep : ∀ data' b fuel', Starts data data' → written.size ≤ b →
              readBlocks data' b (fuel' + 1) pos out =
                if last = 1 then (written, .finished ((pos₃ + 7) / 8))
                else readBlocks data' b fuel' pos₃ written := by
            intro data' b fuel' hd hb
            simp only [readBlocks, (readBits_of_starts hd hpos hlast).1,
              (readBits_of_starts hd hle₁ hkind).1, hagain data' b hd hb]
          have hshort : ∀ b, out.size ≤ b → b < written.size →
              ∃ cut, readBlocks data b (fuel + 1) pos out = (cut, .full) ∧ cut.size = b ∧
                Starts cut written := by
            intro b hlo hhi
            obtain ⟨cut, hcutEq, hcutSize, hcutStarts⟩ := hcut b hlo hhi
            exact ⟨cut, by simp only [readBlocks, hlast, hkind, hcutEq], hcutSize, hcutStarts⟩
          by_cases hdone : last = 1
          · simp only [hdone, if_true] at h
            cases h
            refine ⟨hstarts, by omega, fun data' b fuel' hd hb hfuel => ?_, hshort⟩
            obtain ⟨fuel', rfl⟩ : ∃ n, fuel' = n + 1 := ⟨fuel' - 1, by omega⟩
            rw [hstep data' b fuel' hd hb, if_pos hdone]
          · simp only [hdone, if_false] at h
            obtain ⟨hrest, hused, hrestAgain, hrestCut⟩ := ih hle₃ h
            have hsize := hrest.size_le
            refine ⟨hstarts.trans hrest, hused, fun data' b fuel' hd hb hfuel => ?_,
              fun b hlo hhi => ?_⟩
            · obtain ⟨fuel', rfl⟩ : ∃ n, fuel' = n + 1 := ⟨fuel' - 1, by omega⟩
              rw [hstep data' b fuel' hd (by omega), if_neg hdone]
              exact hrestAgain data' b fuel' hd hb (by omega)
            · by_cases hb : written.size ≤ b
              · rw [hstep data b fuel (.refl data) hb, if_neg hdone]
                exact hrestCut b hb hhi
              · obtain ⟨cut, hcutEq, hcutSize, hcutStarts⟩ := hshort b hlo (by omega)
                exact ⟨cut, hcutEq, hcutSize, hcutStarts.trans hrest⟩

end Parts

/-! ### Streams -/

theorem starts_packed {a b : Bytes} : Starts (packed a) (packed b) ↔ a <+: b := Iff.rfl

/-- A whole stream that does not look behind its beginning: whatever was put out before, it adds
the same content. -/
def Conforms (stream content : Bytes) : Prop :=
  ∀ before, Reads before stream content stream.length

theorem Conforms.inflates {stream content : Bytes} (h : Conforms stream content) :
    Inflates stream content :=
  h []

namespace Reads

variable {before bytes content content' : Bytes} {used used' : Nat}

theorem append (h : Reads before bytes content used) (more : Bytes) :
    Reads before (bytes ++ more) content used := by
  obtain ⟨bound, hread⟩ := h
  obtain ⟨-, -, hagain, -⟩ := readBlocks_steady (Nat.zero_le _) hread
  have hd : Starts (packed bytes) (packed (bytes ++ more)) :=
    starts_packed.2 (List.prefix_append bytes more)
  have hsize := hd.size_le
  exact ⟨_, hagain _ _ _ hd (Nat.le_refl _) (by omega)⟩

theorem unique (h : Reads before bytes content used) (h' : Reads before bytes content' used') :
    content = content' ∧ used = used' := by
  obtain ⟨bound, hread⟩ := h
  obtain ⟨bound', hread'⟩ := h'
  obtain ⟨-, -, hagain, -⟩ := readBlocks_steady (Nat.zero_le _) hread
  obtain ⟨-, -, hagain', -⟩ := readBlocks_steady (Nat.zero_le _) hread'
  -- Both are what is read with the larger room.
  have hone := hagain _ (max (packed (before ++ content)).size (packed (before ++ content')).size) _
    (.refl _) (Nat.le_max_left ..) (Nat.le_refl _)
  have htwo := hagain' _ (max (packed (before ++ content)).size (packed (before ++ content')).size) _
    (.refl _) (Nat.le_max_right ..) (Nat.le_refl _)
  rw [hone, Prod.mk.injEq] at htwo
  obtain ⟨hout, hused⟩ := htwo
  have hlists : before ++ content = before ++ content' :=
    congrArg (fun a : ByteArray => a.data.toList) hout
  exact ⟨List.append_cancel_left hlists, by injection hused⟩

theorem used_le (h : Reads before bytes content used) : used ≤ bytes.length := by
  obtain ⟨bound, hread⟩ := h
  rw [← size_packed]
  exact (readBlocks_steady (Nat.zero_le _) hread).2.1

end Reads

/-- No whole stream goes on as another one. -/
theorem Inflates.not_append {stream content content' more : Bytes} (h : Inflates stream content)
    (hmore : more ≠ []) : ¬ Inflates (stream ++ more) content' := by
  intro h'
  have hused := (h.append more).unique h'
  rw [List.length_append] at hused
  exact hmore (List.length_eq_zero_iff.1 (by omega))

/-- A stream is read the same under every bound that its content fits in. -/
theorem inflateWithin_of_reads {stream content : Bytes} {bound used : Nat}
    (h : Reads [] stream content used) (hbound : content.length ≤ bound) :
    inflateWithin bound stream = (content, .finished used) := by
  obtain ⟨bound', hread⟩ := h
  obtain ⟨-, -, hagain, -⟩ := readBlocks_steady (Nat.zero_le _) hread
  exact inflateWithin_eq
    (hagain _ bound _ (.refl _) (by rw [size_packed]; exact hbound) (Nat.le_refl _))

/-- Under a smaller bound the front of the content is read. -/
theorem inflateWithin_cut {stream content : Bytes} {bound used : Nat}
    (h : Reads [] stream content used) (hbound : bound < content.length) :
    inflateWithin bound stream = (content.take bound, .full) := by
  obtain ⟨bound', hread⟩ := h
  obtain ⟨-, -, -, hcut⟩ := readBlocks_steady (Nat.zero_le _) hread
  obtain ⟨cut, hread, hsize, hstarts⟩ := hcut bound (by rw [size_packed]; exact Nat.zero_le _)
    (by rw [size_packed]; exact hbound)
  have hprefix : cut.data.toList <+: content := hstarts
  have hlength : cut.data.toList.length = bound := hsize
  rw [inflateWithin_eq hread, List.prefix_iff_eq_take.1 hprefix, hlength]

end TokenSeal.Deflate
