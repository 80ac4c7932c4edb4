import TokenSeal.Proofs.Transport

/-! RSA keys whose modulus is a product of different primes. The private function works modulo each
prime and joins the answers; what it joins is what the public function was applied to. -/

namespace TokenSeal

/-! ### Powers and inverses -/

namespace Modular

theorem powBits_eq {base exponent modulus bits acc : Nat}
    (hacc : acc = base ^ (exponent / 2 ^ bits) % modulus) :
    powBits base exponent modulus bits acc = base ^ exponent % modulus := by
  induction bits generalizing acc with
  | zero => simpa [powBits] using hacc
  | succ bits ih =>
    have hsplit : exponent / 2 ^ bits =
        2 * (exponent / 2 ^ (bits + 1)) + exponent / 2 ^ bits % 2 := by
      rw [Nat.pow_succ, ← Nat.div_div_eq_div_mul]
      exact (Nat.div_add_mod _ 2).symm
    have hsquare : acc * acc % modulus =
        base ^ (2 * (exponent / 2 ^ (bits + 1))) % modulus := by
      rw [hacc, ← Nat.mul_mod, ← Nat.pow_add, Nat.two_mul]
    rw [powBits]
    refine ih ?_
    rw [Nat.testBit_eq_decide_div_mod_eq, hsplit]
    obtain hbit | hbit := Nat.mod_two_eq_zero_or_one (exponent / 2 ^ bits)
    · simp [hbit, hsquare]
    · simp [hbit, hsquare, Nat.pow_succ, Nat.mul_mod]

theorem pow_eq (base exponent modulus : Nat) :
    pow base exponent modulus = base ^ exponent % modulus := by
  unfold pow
  split
  · next hzero => rw [hzero, Nat.pow_zero]
  · have hnone : exponent / 2 ^ (Nat.log2 exponent + 1) = 0 :=
      Nat.div_eq_of_lt Nat.lt_log2_self
    rw [powBits_eq (by rw [hnone, Nat.pow_zero]), ← Nat.pow_mod]

/-- Both remainders of Euclid's algorithm stay multiples of the first argument. -/
theorem euclid_modEq (fuel : Nat) {n m a b : Nat} {s t : Int} (ha : s * n ≡ a [ZMOD m])
    (hb : t * n ≡ b [ZMOD m]) :
    (euclid fuel a s b t).2 * n ≡ (euclid fuel a s b t).1 [ZMOD m] := by
  induction fuel generalizing a b s t with
  | zero => exact ha
  | succ fuel ih =>
    rw [euclid]
    split
    · exact ha
    · refine ih hb ?_
      have hrest : ((a % b : Nat) : Int) = a - (a / b : Nat) * b := by
        have hdiv := Nat.div_add_mod a b
        rw [Nat.mul_comm] at hdiv
        omega
      calc (s - (a / b : Nat) * t) * n = s * n - (a / b : Nat) * (t * n) := by ring
        _ ≡ a - (a / b : Nat) * b [ZMOD m] := ha.sub (hb.mul_left _)
        _ = (a % b : Nat) := hrest.symm

theorem mul_inverse? {a m i : Nat} (hm : 0 < m) (h : inverse? a m = some i) :
    a * i ≡ 1 [MOD m] := by
  have hstart : (1 : Int) * a ≡ (a % m : Nat) [ZMOD m] := by
    rw [one_mul]
    exact (Int.natCast_modEq_iff.2 (Nat.mod_modEq a m)).symm
  have hend : (0 : Int) * a ≡ m [ZMOD m] := by simp [Int.ModEq]
  have hfound := euclid_modEq (2 * (Nat.log2 a + Nat.log2 m) + 8) hstart hend
  unfold inverse? at h
  dsimp only at h
  split at h
  · next hone =>
    rw [hone] at hfound
    cases h
    have hm' : (m : Int) ≠ 0 := by omega
    rw [← Int.natCast_modEq_iff, Nat.cast_mul, Int.toNat_of_nonneg (Int.emod_nonneg _ hm'),
      Nat.cast_one, mul_comm]
    exact ((Int.mod_modEq _ _).mul_right _).trans hfound
  · cases h

end Modular

/-! ### The private function -/

namespace RsaKey

/-- Exponents that are inverse to each other modulo one less than a prime leave every number as it
is, those that the prime divides too. -/
theorem pow_pow_modEq {p e d : Nat} (hp : p.Prime) (h : e * d % (p - 1) = 1) (m : Nat) :
    (m ^ e) ^ d ≡ m [MOD p] := by
  have hed : e * d = (p - 1) * (e * d / (p - 1)) + 1 := by
    have := Nat.div_add_mod (e * d) (p - 1)
    omega
  rw [← Nat.pow_mul, hed, Nat.pow_succ, Nat.pow_mul]
  by_cases hdvd : p ∣ m
  · have hzero : m ≡ 0 [MOD p] := Nat.modEq_zero_iff_dvd.2 hdvd
    exact ((hzero.mul_left _).trans (by rw [Nat.mul_zero])).trans hzero.symm
  · have hfermat : m ^ (p - 1) ≡ 1 [MOD p] := by
      rw [← Nat.totient_prime hp]
      exact Nat.ModEq.pow_totient ((hp.coprime_iff_not_dvd.2 hdvd).symm)
    have hone := (hfermat.pow (e * d / (p - 1))).mul_right m
    rwa [Nat.one_pow, Nat.one_mul] at hone

/-- One more prime is joined by adding the multiple of the others that makes up the difference. -/
theorem joined_modEq {m mp p r coefficient : Nat} (hp : 0 < p)
    (hinverse : r * coefficient ≡ 1 [MOD p]) :
    m + (mp + (p - m % p)) * coefficient % p * r ≡ mp [MOD p] := by
  let missing := mp + (p - m % p)
  have hmul : missing * coefficient % p * r ≡ missing [MOD p] :=
    calc missing * coefficient % p * r ≡ missing * coefficient * r [MOD p] :=
          (Nat.mod_modEq _ p).mul_right r
      _ = missing * (r * coefficient) := by ring
      _ ≡ missing * 1 [MOD p] := hinverse.mul_left _
      _ = missing := Nat.mul_one _
  have hrest : m % p + missing = mp + p := by
    have := Nat.mod_lt m hp
    omega
  calc m + missing * coefficient % p * r ≡ m % p + missing [MOD p] :=
        (Nat.mod_modEq m p).symm.add hmul
    _ = mp + p := hrest
    _ ≡ mp [MOD p] := by simp [Nat.ModEq]

/-- What is joined is right modulo all the primes that it was joined from. -/
theorem joinPrimes?_modEq {c d x m r found : Nat} {rest : List Nat}
    (hrest : ∀ p ∈ rest, 0 < p ∧ c ^ (d % (p - 1)) ≡ x [MOD p]) (hm : m ≡ x [MOD r]) (hlt : m < r)
    (h : joinPrimes? c d m r rest = some found) :
    found ≡ x [MOD (r * rest.prod)] ∧ found < r * rest.prod := by
  induction rest generalizing m r with
  | nil =>
    cases h
    simpa using ⟨hm, hlt⟩
  | cons p rest ih =>
    obtain ⟨hp, hpow⟩ := hrest p (by simp)
    obtain ⟨coefficient, hinverse, h⟩ := Option.bind_eq_some_iff.1 h
    rw [Modular.pow_eq] at h
    have hmod : r * coefficient ≡ 1 [MOD p] :=
      ((Nat.mod_modEq r p).symm.mul_right _).trans (Modular.mul_inverse? hp hinverse)
    let mp := c ^ (d % (p - 1)) % p
    let step := (mp + (p - m % p)) * coefficient % p
    have hfirst : m + step * r ≡ x [MOD r] := by
      have hsame : m + step * r ≡ m [MOD r] := by simp [Nat.ModEq]
      exact hsame.trans hm
    have hsecond : m + step * r ≡ x [MOD p] :=
      (joined_modEq hp hmod).trans ((Nat.mod_modEq _ p).trans hpow)
    have hjoined : m + step * r ≡ x [MOD (r * p)] :=
      (Nat.modEq_and_modEq_iff_modEq_mul (Nat.coprime_of_mul_modEq_one _ hmod)).1 ⟨hfirst, hsecond⟩
    have hbound : m + step * r < r * p := by
      have hstep : step < p := Nat.mod_lt _ hp
      have hle : (step + 1) * r ≤ p * r := Nat.mul_le_mul_right r hstep
      rw [Nat.succ_mul, Nat.mul_comm p] at hle
      omega
    rw [List.prod_cons, ← Nat.mul_assoc]
    exact ih (fun q hq => hrest q (by simp [hq])) hjoined hbound h

/-- A private key whose parts go together and whose modulus is a product of different primes. -/
structure Factored (k : RsaKey) (s : RsaSecret) : Prop where
  checked : k.checkSecret s = .ok ()
  prime : ∀ p ∈ s.primes, p.Prime
  nodup : s.primes.Nodup

theorem checkSecret_eq_ok {k : RsaKey} {s : RsaSecret} :
    k.checkSecret s = .ok () ↔ (∀ p ∈ s.primes, 1 < p) ∧ s.primes.prod = k.modulus ∧
      ∀ p ∈ s.primes, k.exponent * s.exponent % (p - 1) = 1 := by
  have hproduct : s.primes.foldl (· * ·) 1 = s.primes.prod := List.prod_eq_foldl.symm
  unfold checkSecret
  rw [hproduct]
  split
  · next hsmall =>
    simp only [List.any_eq_true, decide_eq_true_eq] at hsmall
    obtain ⟨p, hp, hle⟩ := hsmall
    simp only [reduceCtorEq, false_iff]
    rintro ⟨hlarge, -⟩
    exact absurd (hlarge p hp) (by omega)
  · next hlarge =>
    simp only [List.any_eq_true, decide_eq_true_eq, not_exists, not_and, not_le] at hlarge
    split
    · next hne => simp [hne]
    · next heq =>
      split
      · next hodd =>
        simp only [List.any_eq_true, decide_eq_true_eq] at hodd
        obtain ⟨p, hp, hne⟩ := hodd
        simp only [reduceCtorEq, false_iff]
        rintro ⟨-, -, hinverse⟩
        exact hne (hinverse p hp)
      · next hinverse =>
        simp only [List.any_eq_true, decide_eq_true_eq, not_exists, not_and, not_not] at hinverse
        exact iff_of_true rfl ⟨hlarge, not_not.1 heq, hinverse⟩

section Factored

variable {k : RsaKey} {s : RsaSecret}

theorem Factored.pow_pow_modEq (h : k.Factored s) (m : Nat) {p : Nat} (hp : p ∈ s.primes) :
    k.applyPublic m ^ s.exponent ≡ m [MOD p] ∧
      k.applyPublic m ^ (s.exponent % (p - 1)) ≡ m [MOD p] := by
  obtain ⟨-, hproduct, hinverse⟩ := checkSecret_eq_ok.1 h.checked
  have hpublic : k.applyPublic m ≡ m ^ k.exponent [MOD p] := by
    rw [applyPublic, Modular.pow_eq]
    refine (Nat.mod_modEq _ _).of_dvd ?_
    rw [← hproduct]
    exact List.dvd_prod hp
  have hrest : k.exponent * (s.exponent % (p - 1)) % (p - 1) = 1 := by
    rw [Nat.mul_mod_mod, hinverse p hp]
  exact ⟨(hpublic.pow _).trans (RsaKey.pow_pow_modEq (h.prime p hp) (hinverse p hp) m),
    (hpublic.pow _).trans (RsaKey.pow_pow_modEq (h.prime p hp) hrest m)⟩

theorem Factored.applyPrimes?_eq (h : k.Factored s) {m found : Nat} (hm : m < k.modulus)
    (hfound : applyPrimes? s (k.applyPublic m) = some found) : found = m := by
  obtain ⟨hlarge, hproduct, -⟩ := checkSecret_eq_ok.1 h.checked
  cases hprimes : s.primes with
  | nil => simp [applyPrimes?, hprimes] at hfound
  | cons p primes =>
    cases primes with
    | nil => simp [applyPrimes?, hprimes] at hfound
    | cons q rest =>
      have hjoin : joinPrimes? (k.applyPublic m) s.exponent
          (Modular.pow (k.applyPublic m) (s.exponent % (q - 1)) q) q (p :: rest) = some found := by
        rw [joinPrimes?, Nat.mul_comm q p]
        simpa [applyPrimes?, hprimes] using hfound
      have hq : q ∈ s.primes := by simp [hprimes]
      have hq' : 1 < q := hlarge q hq
      have hmq : Modular.pow (k.applyPublic m) (s.exponent % (q - 1)) q ≡ m [MOD q] := by
        rw [Modular.pow_eq]
        exact (Nat.mod_modEq _ _).trans (h.pow_pow_modEq m hq).2
      have hmq' : Modular.pow (k.applyPublic m) (s.exponent % (q - 1)) q < q := by
        rw [Modular.pow_eq]
        exact Nat.mod_lt _ (by omega)
      have hall : ∀ p' ∈ p :: rest, 0 < p' ∧
          k.applyPublic m ^ (s.exponent % (p' - 1)) ≡ m [MOD p'] := by
        intro p' hp'
        have hmem : p' ∈ s.primes := by
          rw [hprimes]
          simp only [List.mem_cons] at hp' ⊢
          exact hp'.imp_right .inr
        exact ⟨(hlarge p' hmem).pos, (h.pow_pow_modEq m hmem).2⟩
      obtain ⟨hmod, hlt⟩ := joinPrimes?_modEq hall hmq hmq' hjoin
      have hwhole : q * (p :: rest).prod = k.modulus := by
        rw [← hproduct, hprimes, List.prod_cons, List.prod_cons, List.prod_cons]
        exact Nat.mul_left_comm _ _ _
      rw [hwhole] at hmod hlt
      exact hmod.eq_of_lt_of_lt hlt hm

/-- Where the primes have no inverses modulo each other, the power is taken modulo their product. -/
theorem Factored.pow_eq (h : k.Factored s) {m : Nat} (hm : m < k.modulus) :
    Modular.pow (k.applyPublic m) s.exponent k.modulus = m := by
  obtain ⟨-, hproduct, -⟩ := checkSecret_eq_ok.1 h.checked
  have hcoprime : s.primes.Pairwise Nat.Coprime :=
    h.nodup.imp_of_mem fun hp hq hne => (Nat.coprime_primes (h.prime _ hp) (h.prime _ hq)).2 hne
  have hmod : k.applyPublic m ^ s.exponent ≡ m [MOD k.modulus] := by
    rw [← hproduct, Nat.modEq_list_prod_iff hcoprime]
    exact fun i => (h.pow_pow_modEq m (s.primes.get_mem i)).1
  rw [Modular.pow_eq]
  exact Nat.mod_eq_of_modEq hmod hm

/-- The private function of a key with different primes takes back the public one. -/
theorem inverts_of_factored (h : ∀ s, k.secret = some s → k.Factored s) : k.Inverts := by
  intro s hs m hm
  have hback : (applyPrimes? s (k.applyPublic m)).getD
      (Modular.pow (k.applyPublic m) s.exponent k.modulus) = m := by
    cases hfound : applyPrimes? s (k.applyPublic m) with
    | none => exact (h s hs).pow_eq hm
    | some found => exact (h s hs).applyPrimes?_eq hm hfound
  rw [applySecret, hback]
  exact if_pos rfl

end Factored

/-! ### Keys of two primes -/

/-- The key of two numbers, with 5 as its public exponent. If both numbers end in the digit 7, then
5 divides what the private exponent is taken from. -/
def ofPrimes (p q : Nat) : RsaKey :=
  ⟨p * q, 5, some ⟨(4 * ((p - 1) * (q - 1)) + 1) / 5, [p, q]⟩⟩

theorem factored_ofPrimes {p q : Nat} (hp : p.Prime) (hq : q.Prime) (hne : p ≠ q)
    (hp7 : p % 10 = 7) (hq7 : q % 10 = 7) {s : RsaSecret} (hs : (ofPrimes p q).secret = some s) :
    (ofPrimes p q).Factored s := by
  obtain rfl : _ = s := Option.some.inj hs
  have hmod : (p - 1) * (q - 1) % 5 = 1 := by
    rw [Nat.mul_mod, show (p - 1) % 5 = 1 by omega, show (q - 1) % 5 = 1 by omega]
  have hinverse : 5 * ((4 * ((p - 1) * (q - 1)) + 1) / 5) = 4 * ((p - 1) * (q - 1)) + 1 := by
    omega
  have hfirst : (4 * ((p - 1) * (q - 1)) + 1) % (p - 1) = 1 := by
    rw [Nat.mul_left_comm, Nat.mul_add_mod]
    exact Nat.mod_eq_of_lt (by omega)
  have hsecond : (4 * ((p - 1) * (q - 1)) + 1) % (q - 1) = 1 := by
    rw [← Nat.mul_assoc, Nat.mul_comm, Nat.mul_add_mod]
    exact Nat.mod_eq_of_lt (by omega)
  refine ⟨checkSecret_eq_ok.2 ⟨?_, ?_, ?_⟩, ?_, ?_⟩
  · simp only [List.forall_mem_cons, List.not_mem_nil, IsEmpty.forall_iff, implies_true, and_true]
    omega
  · simp [ofPrimes]
  · simp only [ofPrimes, hinverse, List.forall_mem_cons, List.not_mem_nil, IsEmpty.forall_iff,
      implies_true, and_true]
    exact ⟨hfirst, hsecond⟩
  · simp [hp, hq]
  · simp [hne]

theorem prime_mersenne_607 : (mersenne 607).Prime :=
  lucas_lehmer_sufficiency _ (by norm_num) (by norm_num)

theorem prime_mersenne_2203 : (mersenne 2203).Prime :=
  lucas_lehmer_sufficiency _ (by norm_num) (by norm_num)

/-- A key of two Mersenne primes, 352 bytes wide. -/
@[irreducible]
def mersenneKey : RsaKey := ofPrimes (mersenne 607) (mersenne 2203)

theorem inverts_mersenneKey : mersenneKey.Inverts := by
  unfold mersenneKey
  exact inverts_of_factored fun _ hs => factored_ofPrimes prime_mersenne_607 prime_mersenne_2203
    (strictMono_mersenne.injective.ne (by decide)) (by decide +kernel) (by decide +kernel) hs

/-- Another one, 436 bytes wide. -/
@[irreducible]
def widerKey : RsaKey := ofPrimes (mersenne 1279) (mersenne 2203)

theorem isPrivate_mersenneKey : mersenneKey.isPrivate = true := by
  unfold mersenneKey
  rfl

theorem isPrivate_widerKey : widerKey.isPrivate = true := by
  unfold widerKey
  rfl

theorem width_mersenneKey : mersenneKey.width = 352 := by decide +kernel

theorem width_widerKey : widerKey.width = 436 := by decide +kernel

end RsaKey

end TokenSeal
