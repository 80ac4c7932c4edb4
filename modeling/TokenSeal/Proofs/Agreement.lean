import TokenSeal.Proofs.Text
import TokenSeal.Proofs.Wrapping

/-! The key that comes out of an agreement is the front of an endless stream of digests. It is
gathered round by round, and no two rounds of no two uses hash the same bytes: a part with its
length in front tells where it ends, whatever stands behind it. -/

namespace TokenSeal.Agreement

/-! ### The hashed bytes -/

/-- A secret and what a key is derived from it for. -/
structure Use where
  secret : Bytes
  algorithm : String
  apu : Bytes
  apv : Bytes
  bits : Nat

namespace Use

def input (u : Use) (round : Nat) : Bytes :=
  roundInput round u.secret u.algorithm u.apu u.apv u.bits

def key (u : Use) : Bytes := derive u.secret u.algorithm u.apu u.apv u.bits

/-- Four bytes are enough for the lengths and the number of bits. -/
structure Fits (u : Use) : Prop where
  algorithm : (Bytes.ofText u.algorithm).length < 2 ^ 32
  apu : u.apu.length < 2 ^ 32
  apv : u.apv.length < 2 ^ 32
  bits : u.bits < 2 ^ 32

end Use

theorem ofNat_four_inj {m n : Nat} (hm : m < 2 ^ 32) (hn : n < 2 ^ 32)
    (h : Bytes.ofNat 4 m = Bytes.ofNat 4 n) : m = n :=
  Bytes.ofNat_inj (by omega) (by omega) h

theorem withLength_append_inj {a b s t : Bytes} (ha : a.length < 2 ^ 32) (hb : b.length < 2 ^ 32)
    (h : withLength a ++ s = withLength b ++ t) : a = b ∧ s = t := by
  simp only [withLength, List.append_assoc] at h
  have hwidth : (Bytes.ofNat 4 a.length).length = (Bytes.ofNat 4 b.length).length := by
    rw [Bytes.length_ofNat, Bytes.length_ofNat]
  obtain ⟨hcount, hrest⟩ := List.append_inj h hwidth
  exact List.append_inj hrest (ofNat_four_inj ha hb hcount)

namespace Use

theorem description_inj {u v : Use} (hu : u.Fits) (hv : v.Fits)
    (h : description u.algorithm u.apu u.apv u.bits =
      description v.algorithm v.apu v.apv v.bits) :
    u.algorithm = v.algorithm ∧ u.apu = v.apu ∧ u.apv = v.apv ∧ u.bits = v.bits := by
  simp only [description, List.append_assoc] at h
  obtain ⟨halgorithm, h⟩ := withLength_append_inj hu.algorithm hv.algorithm h
  obtain ⟨hapu, h⟩ := withLength_append_inj hu.apu hv.apu h
  obtain ⟨hapv, h⟩ := withLength_append_inj hu.apv hv.apv h
  exact ⟨Bytes.ofText_injective halgorithm, hapu, hapv, ofNat_four_inj hu.bits hv.bits h⟩

theorem input_inj {u v : Use} (hu : u.Fits) (hv : v.Fits)
    (hsecret : u.secret.length = v.secret.length) {i j : Nat} (hi : i < 2 ^ 32) (hj : j < 2 ^ 32)
    (h : u.input i = v.input j) : i = j ∧ u = v := by
  simp only [input, roundInput, List.append_assoc] at h
  have hwidth : (Bytes.ofNat 4 i).length = (Bytes.ofNat 4 j).length := by
    rw [Bytes.length_ofNat, Bytes.length_ofNat]
  obtain ⟨hround, h⟩ := List.append_inj h hwidth
  -- Secrets have no length in front, so they are told from what follows by having the same one.
  obtain ⟨hsame, h⟩ := List.append_inj h hsecret
  obtain ⟨halgorithm, hapu, hapv, hbits⟩ := description_inj hu hv h
  refine ⟨ofNat_four_inj hi hj hround, ?_⟩
  obtain ⟨secret, algorithm, apu, apv, bits⟩ := u
  obtain ⟨secret', algorithm', apu', apv', bits'⟩ := v
  subst hsame halgorithm hapu hapv hbits
  rfl

/-! ### The stream -/

def block (u : Use) (round : Nat) : Bytes := HashId.sha256.digest (u.input round)

def stream (u : Use) (rounds : Nat) : Bytes := (List.range rounds).flatMap fun i => u.block (i + 1)

/-- How many bytes are asked for. -/
def size (u : Use) : Nat := u.bits ⌈/⌉ 8

theorem length_block (u : Use) (round : Nat) : (u.block round).length = 32 :=
  HashId.length_digest _ _

theorem stream_succ (u : Use) (n : Nat) : u.stream (n + 1) = u.stream n ++ u.block (n + 1) := by
  simp [stream, List.range_succ]

theorem length_stream (u : Use) (n : Nat) : (u.stream n).length = 32 * n := by
  rw [stream, length_flatMap_of_length (fun i => u.length_block (i + 1)), List.length_range,
    Nat.mul_comm]

theorem stream_prefix (u : Use) {m n : Nat} (h : m ≤ n) : u.stream m <+: u.stream n := by
  induction n, h using Nat.le_induction with
  | base => exact List.prefix_refl _
  | succ n _ ih =>
    rw [stream_succ]
    exact ih.trans (List.prefix_append _ _)

theorem size_eq (u : Use) : u.size = (u.bits + 7) / 8 := Nat.ceilDiv_eq_add_pred_div _ _

theorem rounds_eq (u : Use) : rounds u.bits = u.size ⌈/⌉ 32 := by
  rw [Nat.ceilDiv_eq_add_pred_div, size_eq, rounds]
  omega

/-- So many rounds are enough exactly if their digests have all the bytes that are asked for. -/
theorem rounds_le_iff (u : Use) {n : Nat} : rounds u.bits ≤ n ↔ u.size ≤ 32 * n := by
  rw [rounds_eq]
  exact ceilDiv_le_iff_le_mul (by decide)

theorem size_le (u : Use) : u.size ≤ 32 * rounds u.bits := u.rounds_le_iff.1 (Nat.le_refl _)

theorem key_eq_take (u : Use) : u.key = (u.stream (rounds u.bits)).take u.size := by
  rw [size_eq]
  rfl

theorem length_key (u : Use) : u.key.length = u.size := by
  rw [key_eq_take, List.length_take, length_stream]
  exact Nat.min_eq_left u.size_le

theorem key_eq_take_of_le (u : Use) {n : Nat} (h : u.size ≤ 32 * n) :
    u.key = (u.stream n).take u.size := by
  have hall : ∀ m, rounds u.bits ≤ m → (u.stream m).take u.size = u.key := by
    intro m hm
    obtain ⟨rest, hrest⟩ := u.stream_prefix hm
    have hlen : u.size ≤ (u.stream (rounds u.bits)).length := by
      rw [length_stream]
      exact u.size_le
    rw [← hrest, List.take_append_of_le_length hlen, key_eq_take]
  exact (hall n (u.rounds_le_iff.2 h)).symm

/-! ### The rounds -/

/-- A key that is being gathered: the number of the round to come, and the bytes so far. -/
structure Progress where
  round : Nat
  bytes : Bytes

/-- Another round, as long as bytes are missing. -/
def next? (u : Use) (p : Progress) : Option Progress :=
  if p.bytes.length < u.size then some ⟨p.round + 1, p.bytes ++ u.block p.round⟩ else none

/-- Where so many rounds lead from the start. -/
inductive Reached (u : Use) : Nat → Progress → Prop
  | start : Reached u 0 ⟨1, []⟩
  | round {n : Nat} {p q : Progress} : Reached u n p → u.next? p = some q → Reached u (n + 1) q

theorem next?_eq_some {u : Use} {p q : Progress} :
    u.next? p = some q ↔
      p.bytes.length < u.size ∧ q = ⟨p.round + 1, p.bytes ++ u.block p.round⟩ := by
  unfold next?
  split <;> simp_all [eq_comm]

theorem next?_eq_none {u : Use} {p : Progress} : u.next? p = none ↔ u.size ≤ p.bytes.length := by
  simp [next?]

theorem Reached.progress {u : Use} {n : Nat} {p : Progress} (h : u.Reached n p) :
    p = ⟨n + 1, u.stream n⟩ := by
  induction h with
  | start => rfl
  | round _ hnext ih =>
    subst ih
    rw [(next?_eq_some.1 hnext).2, stream_succ]

theorem Reached.le_rounds {u : Use} {n : Nat} {p : Progress} (h : u.Reached n p) :
    n ≤ rounds u.bits := by
  cases h with
  | start => exact Nat.zero_le _
  | round hbefore hnext =>
    have hmissing := (next?_eq_some.1 hnext).1
    rw [hbefore.progress, length_stream, ← Nat.not_le, ← u.rounds_le_iff] at hmissing
    exact Nat.lt_of_not_le hmissing

theorem reached_of_le (u : Use) {n : Nat} (h : n ≤ rounds u.bits) :
    u.Reached n ⟨n + 1, u.stream n⟩ := by
  induction n with
  | zero => exact .start
  | succ n ih =>
    refine .round (ih (Nat.le_of_succ_le h)) (next?_eq_some.2 ⟨?_, ?_⟩)
    · rw [length_stream, ← Nat.not_le, ← u.rounds_le_iff]
      exact Nat.not_le.2 h
    · rw [stream_succ]

/-- The rounds come to an end, always after the same number of them. -/
theorem finished_iff (u : Use) {n : Nat} {p : Progress} :
    u.Reached n p ∧ u.next? p = none ↔ n = rounds u.bits ∧ p = ⟨n + 1, u.stream n⟩ := by
  constructor
  · rintro ⟨hreached, hdone⟩
    have hp := hreached.progress
    rw [next?_eq_none, hp, length_stream, ← u.rounds_le_iff] at hdone
    exact ⟨Nat.le_antisymm hreached.le_rounds hdone, hp⟩
  · rintro ⟨rfl, rfl⟩
    refine ⟨u.reached_of_le (Nat.le_refl _), next?_eq_none.2 ?_⟩
    rw [length_stream]
    exact u.size_le

theorem rounds_lt {u : Use} (h : u.Fits) : rounds u.bits + 1 < 2 ^ 32 := by
  have hbits := h.bits
  rw [rounds]
  omega

end Use

/-- A derived key has the length asked for and is the front of the stream of digests; the rounds
that gather it are counted, their number fits four bytes, and no other round of any use with a
secret of the same length hashes the same bytes. -/
theorem derive_stream (u : Use) (hu : u.Fits) :
    u.key.length = u.bits ⌈/⌉ 8 ∧
    (∀ n, u.bits ⌈/⌉ 8 ≤ 32 * n → u.key = (u.stream n).take (u.bits ⌈/⌉ 8)) ∧
    (∀ n p, u.Reached n p ∧ u.next? p = none ↔
      n = (u.bits ⌈/⌉ 8) ⌈/⌉ 32 ∧ p = ⟨n + 1, u.stream n⟩) ∧
    (∀ n p, u.Reached n p → u.next? p = none → u.key = p.bytes.take (u.bits ⌈/⌉ 8)) ∧
    (u.bits ⌈/⌉ 8) ⌈/⌉ 32 + 1 < 2 ^ 32 ∧
    ∀ v : Use, v.Fits → u.secret.length = v.secret.length → ∀ i < 2 ^ 32, ∀ j < 2 ^ 32,
      u.input i = v.input j → i = j ∧ u = v := by
  have hrounds : rounds u.bits = (u.bits ⌈/⌉ 8) ⌈/⌉ 32 := u.rounds_eq
  rw [← hrounds]
  refine ⟨u.length_key, fun n => u.key_eq_take_of_le, fun n p => u.finished_iff, ?_,
    Use.rounds_lt hu, fun v hv hsecret i hi j hj => Use.input_inj hu hv hsecret hi hj⟩
  intro n p hreached hdone
  obtain ⟨rfl, rfl⟩ := u.finished_iff.1 ⟨hreached, hdone⟩
  exact u.key_eq_take

/-- A use that takes two rounds, between two parties. -/
def twoRounds : Use := ⟨List.replicate 32 42, "A256CBC-HS512", [65], [66], 512⟩

theorem fits_twoRounds (apu apv : Bytes) (hapu : apu.length < 2 ^ 32) (hapv : apv.length < 2 ^ 32) :
    ({ twoRounds with apu, apv } : Use).Fits where
  algorithm := (by decide : (Bytes.ofText "A256CBC-HS512").length < 2 ^ 32)
  apu := hapu
  apv := hapv
  bits := (by decide : 512 < 2 ^ 32)

/-- What one party gives of itself does not pass for a part of what the other gives. -/
theorem derive_stream_twoRounds :
    twoRounds.key.length = 64 ∧
    (∀ n p, twoRounds.Reached n p → twoRounds.next? p = none → n = 2) ∧
    ∀ i < 2 ^ 32, ∀ j < 2 ^ 32,
      twoRounds.input i ≠ ({ twoRounds with apu := [65, 66], apv := [] } : Use).input j := by
  have hfits := fits_twoRounds [65] [66] (by decide) (by decide)
  have hmoved := fits_twoRounds [65, 66] [] (by decide) (by decide)
  obtain ⟨hlength, -, hrounds, -, -, hinput⟩ := derive_stream twoRounds hfits
  refine ⟨hlength, fun n p hreached hdone => ((hrounds n p).1 ⟨hreached, hdone⟩).1, ?_⟩
  intro i hi j hj h
  have hsame := (hinput _ hmoved rfl i hi j hj h).2
  exact absurd (congrArg Use.apv hsame) (by decide)

end TokenSeal.Agreement
