import TokenSeal.Proofs.Base64
import TokenSeal.Proofs.Lending

/-! Where the buffers of a pool are. A buffer is made when a loan is asked for and no idle one has
the room, or when a loan outgrows its own; from then on it is idle, or on loan, or was dropped by a
full pool. The counters of the pool say what has become of the loans. -/

namespace TokenSeal

/-- The bytes that a loan has room for once the use is over. -/
def Use.need (l : Loan) : Use → Nat
  | fill _ => l.buffer.length
  | append data => l.buffer.length + data.length
  | truncate _ => l.buffer.length
  | resize n => max l.buffer.length n

/-- The capacity of the buffer to which a use moves the loan, if it has outgrown its own. -/
def Use.growth? (l : Loan) (u : Use) : Option Nat :=
  if l.buffer.capacity < u.need l then some (max (u.need l) (2 * l.buffer.capacity)) else none

def Loan.capacities (loans : List Loan) : Multiset Nat :=
  (loans.map (·.buffer.capacity) : List Nat)

namespace Pool

def capacities (p : Pool) : Multiset Nat := (p.idle.map Buffer.capacity : List Nat)

def hasRoom (p : Pool) (size : Nat) : Bool := p.idle.any fun b => decide (size ≤ b.capacity)

/-- The capacities of the buffers that are made for a loan. -/
def making (p : Pool) (size : Nat) : List Nat := if p.hasRoom size then [] else [size]

/-- The capacities of the buffers that are dropped when one comes back. -/
def dropping (p : Pool) (b : Buffer) : List Nat :=
  if p.idle.length < p.limit then [] else [b.capacity]

end Pool

/-- The same for the loan at a place and any action. -/
def Lending.Action.growth? (place : Nat) (l : Loan) : Lending.Action → Option Nat
  | .use i u => if i = place then u.growth? l else none
  | _ => none

/-- The size of the loan that an action asks for, and whether it is to be sensitive. -/
def Lending.Action.request? : Lending.Action → Option (Nat × Bool)
  | .lend size sensitive => some (size, sensitive)
  | .lendDecoded text => (Base64Url.decodedLength text.utf8ByteSize).toOption.map (·, true)
  | .lendRandom size => some (size, true)
  | _ => none

/-- How a loan of some size comes by its buffer: an idle one is taken, or a new one is made because
none has the room. -/
inductive Pool.Finds (p : Pool) (size : Nat) (l : Loan) (p' : Pool) : Prop where
  | idle (b : Buffer) (room : size ≤ b.capacity) (capacity : l.buffer.capacity = b.capacity)
      (taken : p.idle.Perm (b :: p'.idle))
  | new (short : ∀ b ∈ p.idle, b.capacity < size) (capacity : l.buffer.capacity = size)
      (kept : p'.idle = p.idle)

/-- What becomes of buffers and loans: the capacities of the buffers that are made, and of those
that a full pool drops; the loans that end, and the loans that move to another buffer, as they
were. -/
structure Turnover where
  made : List Nat := []
  dropped : List Nat := []
  ended : List Loan := []
  moved : List Loan := []

def Turnover.add (t t' : Turnover) : Turnover :=
  ⟨t.made ++ t'.made, t.dropped ++ t'.dropped, t.ended ++ t'.ended, t.moved ++ t'.moved⟩

namespace Lending

/-- The loans that have not ended. -/
def lent (s : Lending) : List Loan := s.loans.filterMap id

/-- Read off the state before the action. A text that cannot be decoded makes a loan that ends at
once, unless its length is wrong already. -/
def turnover (s : Lending) : Action → Turnover
  | .lend size _ => { made := s.pool.making size }
  | .lendRandom size => { made := s.pool.making size }
  | .lendDecoded text =>
    match Base64Url.decodedLength text.utf8ByteSize with
    | .error _ => {}
    | .ok size =>
      match Base64Url.decode text with
      | .ok _ => { made := s.pool.making size }
      | .error _ =>
        let (l, p) := s.pool.lend size true
        { made := s.pool.making size, dropped := p.dropping l.buffer, ended := [l] }
  | .use place u =>
    match s.live? place with
    | some l =>
      match u.growth? l with
      | some capacity => { made := [capacity], dropped := s.pool.dropping l.buffer, moved := [l] }
      | none => {}
    | none => {}
  | .takeBack place =>
    match s.live? place with
    | some l => { dropped := s.pool.dropping l.buffer, ended := [l] }
    | none => {}

/-- The turnover of all actions, each taken in the state that the earlier ones leave. -/
def turnoverOf (s : Lending) : List Action → Turnover
  | [] => {}
  | a :: rest => (s.turnover a).add (turnoverOf (s.perform a) rest)

/-- The capacities of the buffers that are idle or on loan. -/
def capacities (s : Lending) : Multiset Nat := s.pool.capacities + Loan.capacities s.lent

/-- What one action may do to the balance. -/
structure Passes (s s' : Lending) (t : Turnover) : Prop where
  limit : s'.pool.limit = s.pool.limit
  outstanding : s.pool.outstanding = s.lent.length → s'.pool.outstanding = s'.lent.length
  retained : s.pool.idle.length ≤ s.pool.limit → s'.pool.idle.length ≤ s'.pool.limit
  wiped : s'.pool.wiped =
    s.pool.wiped + (t.ended.countP (·.sensitive) + t.moved.countP (·.sensitive))
  placed : s'.capacities + (t.dropped : List Nat) = s.capacities + (t.made : List Nat)

end Lending

/-! ### Capacities -/

namespace Buffer

/-- Bytes beyond the capacity would take more room; within it the room stays as it is. -/
theorem capacity_append (b : Buffer) (data : Bytes) :
    (b.append data).capacity = max b.capacity (b.length + data.length) := by
  have hle : b.length ≤ b.capacity := b.length_le
  simp only [capacity, append, List.length_append, length_visible, List.length_drop] at hle ⊢
  omega

theorem capacity_truncate (b : Buffer) (n : Nat) : (b.truncate n).capacity = b.capacity := rfl

theorem capacity_resize (b : Buffer) (n : Nat) : (b.resize n).capacity = max b.capacity n := by
  have hle : b.length ≤ b.capacity := b.length_le
  unfold resize
  split
  · rw [capacity_truncate]
    omega
  · rw [capacity_append, Bytes.length_zeros]
    omega

theorem capacity_overwrite (b : Buffer) (data : Bytes) :
    (b.overwrite data).capacity = max b.capacity data.length := by
  rw [overwrite, capacity_append, capacity_truncate]
  simp [truncate]

theorem capacity_allocate (n : Nat) : (allocate n).capacity = n := Bytes.length_zeros n

theorem capacity_clear (b : Buffer) : b.clear.capacity = b.capacity := rfl

theorem capacity_wipe (b : Buffer) : b.wipe.capacity = b.capacity := capacity_allocate _

end Buffer

theorem Base64Url.decodedLength_of_decode {text : String} {bytes : Bytes}
    (h : decode text = .ok bytes) : decodedLength text.utf8ByteSize = .ok bytes.length := by
  rw [decode_eq_ok_iff.1 h, utf8ByteSize_encode, decodedLength, encodedLength, if_neg (by omega)]
  congr 1
  omega

theorem exists_append_of_getElem? {α : Type} {items : List α} {i : Nat} {a : α}
    (h : items[i]? = some a) :
    ∃ before after, items = before ++ a :: after ∧ before.length = i := by
  obtain ⟨hlt, rfl⟩ := List.getElem?_eq_some_iff.1 h
  exact ⟨items.take i, items.drop (i + 1), by simp, by simp; omega⟩

namespace Pool

variable {p : Pool}

theorem perm_takeOut {α : Type} {items : List α} {i : Nat} {a : α} (h : items[i]? = some a) :
    items.Perm (a :: takeOut items i) := by
  obtain ⟨before, after, rfl, rfl⟩ := exists_append_of_getElem? h
  rcases List.eq_nil_or_concat' after with rfl | ⟨init, last, rfl⟩
  · have hrest : takeOut (before ++ [a]) before.length = before := by simp [takeOut]
    rw [hrest]
    exact List.perm_append_comm
  · have hsplit : before ++ a :: (init ++ [last]) = (before ++ a :: init) ++ [last] := by simp
    have hset : (before ++ a :: init ++ [last]).set before.length last =
        (before ++ last :: init) ++ [last] := by simp
    have hrest : takeOut (before ++ a :: (init ++ [last])) before.length =
        before ++ last :: init := by
      rw [hsplit, takeOut, List.getLast?_concat]
      dsimp only
      rw [hset, List.dropLast_concat]
    rw [hrest]
    have hmoved : (init ++ [last]).Perm (last :: init) := List.perm_append_comm
    exact List.perm_middle.trans ((hmoved.append_left before).cons a)

theorem hasRoom_iff {size : Nat} : p.hasRoom size = true ↔ ∃ b ∈ p.idle, size ≤ b.capacity := by
  simp [hasRoom]

theorem reuse?_eq_none {size : Nat} (h : p.reuse? size = none) :
    ∀ b ∈ p.idle, b.capacity < size := by
  unfold reuse? at h
  split at h
  · next i hi =>
    obtain ⟨hlt, -⟩ := List.findIdx?_eq_some_iff_getElem.1 hi
    simp [List.getElem?_eq_getElem hlt] at h
  · next hnone => simpa [List.findIdx?_eq_none_iff] using hnone

theorem finds_lend (p : Pool) (size : Nat) (sensitive : Bool) :
    p.Finds size (p.lend size sensitive).1 (p.lend size sensitive).2 := by
  unfold lend
  split
  · next b rest hreuse =>
    obtain ⟨-, hroom, i, hi, rfl⟩ := reuse?_eq_some hreuse
    exact .idle b hroom ((b.capacity_resize size).trans (Nat.max_eq_left hroom)) (perm_takeOut hi)
  · next hreuse =>
    refine .new (reuse?_eq_none hreuse) ?_ rfl
    rw [Buffer.capacity_resize, Buffer.capacity_allocate, Nat.max_self]

theorem Finds.capacities_add {size : Nat} {l : Loan} {p' : Pool} (h : p.Finds size l p') :
    p'.capacities + {l.buffer.capacity} = p.capacities + (p.making size : List Nat) := by
  cases h with
  | idle b hroom hcapacity htaken =>
    have hmaking : p.making size = [] :=
      if_pos (hasRoom_iff.2 ⟨b, htaken.symm.subset List.mem_cons_self, hroom⟩)
    have hcapacities : p.capacities = (b.capacity :: p'.idle.map Buffer.capacity : List Nat) :=
      Multiset.coe_eq_coe.2 (htaken.map Buffer.capacity)
    rw [hmaking, hcapacity, hcapacities, ← Multiset.cons_coe, Multiset.coe_nil, add_zero, add_comm,
      Multiset.singleton_add]
    rfl
  | new hshort hcapacity hkept =>
    have hmaking : p.making size = [size] := by
      refine if_neg fun hroom => ?_
      obtain ⟨b, hb, hle⟩ := hasRoom_iff.1 hroom
      exact absurd (hshort b hb) (Nat.not_lt.2 hle)
    rw [hmaking, hcapacity, capacities, capacities, hkept, Multiset.coe_singleton]

theorem Finds.congr {size : Nat} {l l' : Loan} {p' : Pool} (h : p.Finds size l p')
    (hcapacity : l'.buffer.capacity = l.buffer.capacity) : p.Finds size l' p' := by
  cases h with
  | idle b hroom hb htaken => exact .idle b hroom (hcapacity.trans hb) htaken
  | new hshort hsize hkept => exact .new hshort (hcapacity.trans hsize) hkept

theorem Finds.size_le {size : Nat} {l : Loan} {p' : Pool} (h : p.Finds size l p') :
    size ≤ l.buffer.capacity := by
  cases h with
  | idle b hroom hcapacity htaken => rwa [hcapacity]
  | new hshort hcapacity hkept => rw [hcapacity]

theorem Finds.length_le {size : Nat} {l : Loan} {p' : Pool} (h : p.Finds size l p') :
    p'.idle.length ≤ p.idle.length := by
  cases h with
  | idle b hroom hcapacity htaken =>
    rw [htaken.length_eq]
    exact Nat.le_succ _
  | new hshort hcapacity hkept => rw [hkept]

theorem length_lend (p : Pool) (size : Nat) (sensitive : Bool) :
    (p.lend size sensitive).1.buffer.length = size := by
  unfold lend
  split <;> exact Buffer.length_resize _ _

theorem counters_lend (p : Pool) (size : Nat) (sensitive : Bool) :
    (p.lend size sensitive).1.sensitive = sensitive ∧ (p.lend size sensitive).2.limit = p.limit ∧
      (p.lend size sensitive).2.outstanding = p.outstanding + 1 ∧
      (p.lend size sensitive).2.wiped = p.wiped := by
  unfold lend
  split <;> exact ⟨rfl, rfl, rfl, rfl⟩

/-- What is written into a loan as soon as it is made fits. -/
theorem capacity_overwrite_lend {size : Nat} {bytes : Bytes} (p : Pool) (h : bytes.length = size) :
    ((p.lend size true).1.buffer.overwrite bytes).capacity =
      (p.lend size true).1.buffer.capacity := by
  rw [Buffer.capacity_overwrite, h]
  exact Nat.max_eq_left (p.finds_lend size true).size_le

theorem lendDecoded_cases (p : Pool) (text : String) :
    (∃ e, Base64Url.decodedLength text.utf8ByteSize = .error e ∧
      p.lendDecoded text = (.error e, p)) ∨
    ∃ size, Base64Url.decodedLength text.utf8ByteSize = .ok size ∧
      ((∃ e, Base64Url.decode text = .error e ∧
        p.lendDecoded text = (.error e, (p.lend size true).2.takeBack (p.lend size true).1)) ∨
      ∃ bytes, Base64Url.decode text = .ok bytes ∧ bytes.length = size ∧
        p.lendDecoded text =
          (.ok ⟨(p.lend size true).1.buffer.overwrite bytes, true⟩, (p.lend size true).2)) := by
  cases hsize : Base64Url.decodedLength text.utf8ByteSize with
  | error e => exact .inl ⟨e, rfl, by simp only [lendDecoded, hsize]⟩
  | ok size =>
    refine .inr ⟨size, rfl, ?_⟩
    have hvisible : (p.lend size true).1.buffer.visible.length = size := by
      rw [Buffer.length_visible]
      exact p.length_lend size true
    have hinto := Base64Url.decodeInto_of_le hsize hvisible.ge
    cases hdecode : Base64Url.decode text with
    | error e =>
      refine .inl ⟨e, rfl, ?_⟩
      simp only [lendDecoded, hsize]
      rw [hinto, hdecode]
      rfl
    | ok bytes =>
      have hlength := Base64Url.decodedLength_of_decode hdecode
      rw [hsize, Except.ok.injEq] at hlength
      refine .inr ⟨bytes, rfl, hlength.symm, ?_⟩
      simp only [lendDecoded, hsize]
      rw [hinto, hdecode]
      rfl

theorem capacities_store (p : Pool) (b : Buffer) (sensitive : Bool) :
    (p.store b sensitive).capacities + (p.dropping b : List Nat) = p.capacities + {b.capacity} := by
  unfold capacities store dropping
  dsimp only
  split
  · have hsame : (if sensitive then b.wipe else b.clear).capacity = b.capacity := by
      cases sensitive
      · exact b.capacity_clear
      · exact b.capacity_wipe
    rw [List.map_append, List.map_singleton, hsame, ← Multiset.coe_add, Multiset.coe_nil, add_zero,
      Multiset.coe_singleton]
  · rw [Multiset.coe_singleton]

theorem length_idle_store (h : p.idle.length ≤ p.limit) (b : Buffer) (sensitive : Bool) :
    (p.store b sensitive).idle.length ≤ p.limit := by
  unfold store
  dsimp only
  split
  · rw [List.length_append, List.length_singleton]
    omega
  · exact h

end Pool

namespace Loan

theorem capacities_append (loans loans' : List Loan) :
    capacities (loans ++ loans') = capacities loans + capacities loans' := by
  rw [capacities, List.map_append, ← Multiset.coe_add]
  rfl

theorem capacities_cons (l : Loan) (loans : List Loan) :
    capacities (l :: loans) = {l.buffer.capacity} + capacities loans := by
  rw [capacities, List.map_cons, ← Multiset.cons_coe, Multiset.singleton_add]
  rfl

theorem reserve_of_fits {p : Pool} {l : Loan} {more : Nat}
    (h : l.buffer.length + more ≤ l.buffer.capacity) : l.reserve p more = (l, p) := by
  rw [reserve, if_pos h]

theorem reserve_of_outgrown {p : Pool} {l : Loan} {more : Nat}
    (h : l.buffer.capacity < l.buffer.length + more) :
    (l.reserve p more).2 = p.store l.buffer l.sensitive ∧
      (l.reserve p more).1.buffer.length = l.buffer.length ∧
      (l.reserve p more).1.buffer.capacity =
        max (l.buffer.length + more) (2 * l.buffer.capacity) := by
  have hle : l.buffer.length ≤ l.buffer.capacity := l.buffer.length_le
  rw [reserve, if_neg (by omega)]
  refine ⟨rfl, ?_, ?_⟩
  · simp [Buffer.append, Buffer.allocate, visible, Buffer.length_visible]
  · rw [Buffer.capacity_append, Buffer.capacity_allocate, visible, Buffer.length_visible]
    simp only [Buffer.allocate]
    omega

theorem sensitive_apply (p : Pool) (l : Loan) (u : Use) :
    (l.apply p u).1.sensitive = l.sensitive := by
  have hreserve : ∀ more, (l.reserve p more).1.sensitive = l.sensitive := by
    intro more
    unfold reserve
    dsimp only
    split <;> rfl
  cases u with
  | fill b => rfl
  | append data => exact hreserve data.length
  | truncate n => rfl
  | resize n => exact hreserve (n - l.buffer.length)

/-- A loan keeps its buffer or moves to one that is made for it. What is written then fits, or else
the capacity would be another one. -/
theorem apply_cases (p : Pool) (l : Loan) (u : Use) :
    (u.growth? l = none ∧ (l.apply p u).2 = p ∧
      (l.apply p u).1.buffer.capacity = l.buffer.capacity) ∨
    ∃ capacity, u.growth? l = some capacity ∧ (l.apply p u).2 = p.store l.buffer l.sensitive ∧
      (l.apply p u).1.buffer.capacity = capacity := by
  have hle : l.buffer.length ≤ l.buffer.capacity := l.buffer.length_le
  cases u with
  | fill b =>
    refine .inl ⟨if_neg (Nat.not_lt.2 hle), rfl, ?_⟩
    rw [apply, fill, Buffer.capacity_overwrite, List.length_replicate]
    omega
  | append data =>
    by_cases hfits : l.buffer.length + data.length ≤ l.buffer.capacity
    · refine .inl ⟨if_neg (Nat.not_lt.2 hfits), ?_⟩
      rw [apply, append, reserve_of_fits hfits]
      refine ⟨rfl, ?_⟩
      rw [Buffer.capacity_append]
      omega
    · obtain ⟨hpool, hlength, hcapacity⟩ := reserve_of_outgrown (p := p) (Nat.not_le.1 hfits)
      refine .inr ⟨_, if_pos (Nat.not_le.1 hfits), hpool, ?_⟩
      rw [apply, append, Buffer.capacity_append, hlength, hcapacity, Use.need]
      omega
  | truncate n => exact .inl ⟨if_neg (Nat.not_lt.2 hle), rfl, rfl⟩
  | resize n =>
    have hneed : (Use.resize n).need l = l.buffer.length + (n - l.buffer.length) := by
      rw [Use.need]
      omega
    by_cases hfits : l.buffer.length + (n - l.buffer.length) ≤ l.buffer.capacity
    · refine .inl ⟨if_neg (by rw [hneed]; omega), ?_⟩
      rw [apply, resize, reserve_of_fits hfits]
      refine ⟨rfl, ?_⟩
      rw [Buffer.capacity_resize]
      omega
    · obtain ⟨hpool, hlength, hcapacity⟩ := reserve_of_outgrown (p := p) (Nat.not_le.1 hfits)
      refine .inr ⟨_, if_pos (by rw [hneed]; omega), hpool, ?_⟩
      rw [apply, resize, Buffer.capacity_resize, hcapacity, hneed]
      omega

end Loan

/-! ### One action -/

namespace Lending

variable {s s' : Lending} {t t' : Turnover} {place : Nat} {l : Loan}

theorem lent_begin (s : Lending) (l : Loan) (p : Pool) : (s.begin l p).lent = s.lent ++ [l] := by
  simp [lent, begin]

theorem exists_lent_put (h : s.live? place = some l) :
    ∃ before after, s.lent = before ++ l :: after ∧
      ∀ l' p, (s.put place l' p).lent = before ++ (l'.toList ++ after) := by
  obtain ⟨before, after, hloans, rfl⟩ := exists_append_of_getElem? (Option.join_eq_some_iff.1 h)
  refine ⟨before.filterMap id, after.filterMap id, by simp [lent, hloans], fun l' p => ?_⟩
  cases l' <;> simp [lent, put, hloans]

theorem Passes.refl (s : Lending) : s.Passes s {} :=
  ⟨rfl, id, id, rfl, rfl⟩

theorem Passes.congr {s'' : Lending} (h : s.Passes s' t) (hpool : s''.pool = s'.pool)
    (hlent : s''.lent = s'.lent) : s.Passes s'' t := by
  obtain ⟨hlimit, houtstanding, hretained, hwiped, hplaced⟩ := h
  rw [← hpool] at hlimit houtstanding hretained hwiped
  rw [capacities, ← hpool, ← hlent] at hplaced
  rw [← hlent] at houtstanding
  exact ⟨hlimit, houtstanding, hretained, hwiped, hplaced⟩

theorem Passes.trans {s'' : Lending} (h : s.Passes s' t) (h' : s'.Passes s'' t') :
    s.Passes s'' (t.add t') := by
  refine ⟨h'.limit.trans h.limit, fun hbalance => h'.outstanding (h.outstanding hbalance),
    fun hretained => h'.retained (h.retained hretained), ?_, ?_⟩
  · rw [h'.wiped, h.wiped, Turnover.add, List.countP_append, List.countP_append]
    omega
  · calc s''.capacities + ((t.dropped ++ t'.dropped : List Nat) : Multiset Nat)
        = s''.capacities + (t'.dropped : List Nat) + (t.dropped : List Nat) := by
          rw [← Multiset.coe_add, add_comm (t.dropped : Multiset Nat), add_assoc]
      _ = s'.capacities + (t.dropped : List Nat) + (t'.made : List Nat) := by
          rw [h'.placed, add_right_comm]
      _ = s.capacities + ((t.made ++ t'.made : List Nat) : Multiset Nat) := by
          rw [h.placed, add_assoc, Multiset.coe_add]

theorem passes_begin (s : Lending) (size : Nat) (sensitive : Bool)
    (h : l.buffer.capacity = (s.pool.lend size sensitive).1.buffer.capacity) :
    s.Passes (s.begin l (s.pool.lend size sensitive).2) { made := s.pool.making size } := by
  have hfinds := s.pool.finds_lend size sensitive
  obtain ⟨-, hlimit, houtstanding, hwiped⟩ := s.pool.counters_lend size sensitive
  refine ⟨hlimit, fun hbalance => ?_, fun hretained => ?_, hwiped, ?_⟩
  · rw [lent_begin, List.length_append, ← hbalance]
    exact houtstanding
  · exact hfinds.length_le.trans (hretained.trans hlimit.ge)
  · have hadd := hfinds.capacities_add
    rw [← h] at hadd
    rw [capacities, lent_begin, Loan.capacities_append, Loan.capacities_cons]
    calc (s.pool.lend size sensitive).2.capacities + (Loan.capacities s.lent +
          ({l.buffer.capacity} + 0)) + 0
        = (s.pool.lend size sensitive).2.capacities + {l.buffer.capacity} +
            Loan.capacities s.lent := by abel
      _ = s.pool.capacities + Loan.capacities s.lent + (s.pool.making size : List Nat) := by
          rw [hadd, add_right_comm]

/-- A loan that ends. -/
theorem passes_takeBack (h : s.live? place = some l) :
    s.Passes (s.put place none (s.pool.takeBack l))
      { dropped := s.pool.dropping l.buffer, ended := [l] } := by
  obtain ⟨before, after, hlent, hput⟩ := exists_lent_put h
  have hadd := s.pool.capacities_store l.buffer l.sensitive
  refine ⟨rfl, fun hbalance => ?_, fun hretained => ?_, ?_, ?_⟩
  · rw [hput, Option.toList_none, List.nil_append]
    rw [hlent, List.length_append, List.length_cons] at hbalance
    simp only [put, Pool.takeBack, Pool.store, hbalance, List.length_append]
    omega
  · exact Pool.length_idle_store hretained l.buffer l.sensitive
  · cases hs : l.sensitive <;> simp [put, Pool.takeBack, Pool.store, hs]
  · rw [capacities, capacities, hput, hlent, Option.toList_none, List.nil_append]
    simp only [Loan.capacities_append, Loan.capacities_cons]
    calc (s.pool.store l.buffer l.sensitive).capacities +
          (Loan.capacities before + Loan.capacities after) + (s.pool.dropping l.buffer : List Nat)
        = (s.pool.store l.buffer l.sensitive).capacities + (s.pool.dropping l.buffer : List Nat) +
            (Loan.capacities before + Loan.capacities after) := by abel
      _ = s.pool.capacities + (Loan.capacities before +
            ({l.buffer.capacity} + Loan.capacities after)) + 0 := by rw [hadd]; abel

theorem passes_use (u : Use) (h : s.live? place = some l) :
    s.Passes (s.perform (.use place u)) (s.turnover (.use place u)) := by
  have hperform : s.perform (.use place u) =
      s.put place (some (l.apply s.pool u).1) (l.apply s.pool u).2 := by
    simp only [perform, h]
  obtain ⟨before, after, hlent, hput⟩ := exists_lent_put h
  have hlength : ∀ l' p, (s.put place (some l') p).lent.length = s.lent.length := by
    intro l' p
    rw [hput, hlent]
    simp
  rw [hperform]
  obtain ⟨hgrowth, hpool, hcapacity⟩ | ⟨capacity, hgrowth, hpool, hcapacity⟩ :=
    l.apply_cases s.pool u
  · simp only [turnover, h, hgrowth, hpool]
    refine ⟨rfl, fun hbalance => hbalance.trans (hlength _ _).symm, id, rfl, ?_⟩
    rw [capacities, capacities, hput, hlent, Option.toList_some, List.singleton_append]
    simp only [Loan.capacities_append, Loan.capacities_cons, hcapacity]
    rfl
  · simp only [turnover, h, hgrowth, hpool]
    have hadd := s.pool.capacities_store l.buffer l.sensitive
    refine ⟨rfl, fun hbalance => hbalance.trans (hlength _ _).symm,
      fun hretained => Pool.length_idle_store hretained l.buffer l.sensitive, ?_, ?_⟩
    · cases hs : l.sensitive <;> simp [put, Pool.store, hs]
    · rw [capacities, capacities, hput, hlent, Option.toList_some, List.singleton_append]
      simp only [Loan.capacities_append, Loan.capacities_cons, hcapacity, Multiset.coe_singleton]
      calc (s.pool.store l.buffer l.sensitive).capacities +
            (Loan.capacities before + ({capacity} + Loan.capacities after)) +
              (s.pool.dropping l.buffer : List Nat)
          = (s.pool.store l.buffer l.sensitive).capacities + (s.pool.dropping l.buffer : List Nat) +
              (Loan.capacities before + ({capacity} + Loan.capacities after)) := by abel
        _ = s.pool.capacities + (Loan.capacities before +
              ({l.buffer.capacity} + Loan.capacities after)) + {capacity} := by rw [hadd]; abel

theorem passes_lendDecoded (s : Lending) (text : String) :
    s.Passes (s.perform (.lendDecoded text)) (s.turnover (.lendDecoded text)) := by
  obtain ⟨e, hsize, hlent⟩ | ⟨size, hsize, ⟨e, hdecode, hlent⟩ |
    ⟨bytes, hdecode, hlength, hlent⟩⟩ := s.pool.lendDecoded_cases text
  · simp only [perform, hlent, turnover, hsize]
    exact .refl s
  · -- The loan made in vain is one that is begun and taken back.
    have hbegin : s.Passes (s.begin (s.pool.lend size true).1 (s.pool.lend size true).2)
        { made := s.pool.making size } := s.passes_begin size true rfl
    have hboth := hbegin.trans (passes_takeBack (s.live?_begin_self _ _))
    simp only [Turnover.add, List.append_nil, List.nil_append] at hboth
    simp only [perform, hlent, turnover, hsize, hdecode]
    refine hboth.congr rfl ?_
    simp [lent, put, begin]
  · simp only [perform, hlent, turnover, hsize, hdecode]
    exact s.passes_begin size true (s.pool.capacity_overwrite_lend hlength)

theorem capacity_randomLoan (s : Lending) (size : Nat) :
    (s.randomLoan size).buffer.capacity = (s.pool.lend size true).1.buffer.capacity := by
  have hlength : (s.entropy.take size).length = size := by
    rw [Entropy.take, List.length_map, List.length_range]
  exact s.pool.capacity_overwrite_lend hlength

theorem passes_perform (s : Lending) (a : Action) : s.Passes (s.perform a) (s.turnover a) := by
  cases a with
  | lend size sensitive => exact s.passes_begin size sensitive rfl
  | lendDecoded text => exact s.passes_lendDecoded text
  | lendRandom size => exact (s.passes_begin size true (s.capacity_randomLoan size)).congr rfl rfl
  | use place u =>
    cases h : s.live? place with
    | some l => exact passes_use u h
    | none =>
      simp only [perform, turnover, h]
      exact .refl s
  | takeBack place =>
    cases h : s.live? place with
    | some l =>
      simp only [perform, turnover, h]
      exact passes_takeBack h
    | none =>
      simp only [perform, turnover, h]
      exact .refl s

/-- A loan keeps the buffer it has, unless it outgrows it. -/
theorem kept_perform {l' : Loan} (h : s.live? place = some l) (a : Action)
    (h' : (s.perform a).live? place = some l') :
    l'.sensitive = l.sensitive ∧
      l'.buffer.capacity = (a.growth? place l).getD l.buffer.capacity := by
  have hplace := lt_of_live? h
  have hkept : (s.perform a).live? place = s.live? place →
      l'.sensitive = l.sensitive ∧ l'.buffer.capacity = l.buffer.capacity := by
    intro hsame
    rw [hsame, h] at h'
    cases h'
    exact ⟨rfl, rfl⟩
  cases a with
  | lend size sensitive => exact hkept (s.live?_begin _ _ hplace)
  | lendDecoded text =>
    refine hkept ?_
    rw [perform]
    split
    · exact s.live?_begin _ _ hplace
    · rfl
  | lendRandom size =>
    exact hkept (s.live?_begin (s.randomLoan size) (s.pool.lend size true).2 hplace)
  | use i u =>
    by_cases hi : i = place
    · simp only [perform, hi, h, live?_put s place _ _ hplace, if_true, Option.some.injEq] at h'
      rw [← h', Action.growth?, if_pos hi]
      refine ⟨l.sensitive_apply s.pool u, ?_⟩
      obtain ⟨hgrowth, -, hcapacity⟩ | ⟨capacity, hgrowth, -, hcapacity⟩ := l.apply_cases s.pool u
      · rw [hgrowth, hcapacity, Option.getD_none]
      · rw [hgrowth, hcapacity, Option.getD_some]
    · rw [Action.growth?, if_neg hi]
      refine hkept ?_
      rw [perform]
      split
      · rw [live?_put s i _ _ hplace, if_neg hi]
      · rfl
  | takeBack i =>
    refine hkept ?_
    rw [perform] at h' ⊢
    split at h'
    · next li hli =>
      rw [live?_put s i _ _ hplace] at h' ⊢
      split at h'
      · cases h'
      · next hi => rw [if_neg hi]
    · rfl

theorem live?_length_of_loans {s' : Lending} (h : s'.loans.length = s.loans.length) :
    s'.live? s.loans.length = none := by
  rw [live?, ← h, List.getElem?_eq_none (Nat.le_refl _)]
  rfl

/-- Each new loan is one that was asked for, and its buffer was found in the pool or made. -/
theorem found_perform (a : Action) (h : (s.perform a).live? s.loans.length = some l) :
    ∃ size, a.request? = some (size, l.sensitive) ∧ s.pool.Finds size l (s.perform a).pool := by
  cases a with
  | lend size sensitive =>
    have hl : (s.pool.lend size sensitive).1 = l :=
      Option.some.inj ((s.live?_begin_self _ _).symm.trans h)
    refine ⟨size, ?_, hl ▸ s.pool.finds_lend size sensitive⟩
    rw [← hl, (s.pool.counters_lend size sensitive).1]
    rfl
  | lendDecoded text =>
    obtain ⟨e, hsize, hlent⟩ | ⟨size, hsize, ⟨e, hdecode, hlent⟩ | ⟨bytes, -, hlength, hlent⟩⟩ :=
      s.pool.lendDecoded_cases text
    · simp only [perform, hlent] at h
      cases (live?_length_of_loans rfl).symm.trans h
    · simp only [perform, hlent] at h
      cases (live?_length_of_loans rfl).symm.trans h
    · simp only [perform, hlent, live?_begin_self, Option.some.injEq] at h ⊢
      refine ⟨size, ?_, ?_⟩
      · rw [← h, Action.request?, hsize]
        rfl
      · exact (s.pool.finds_lend size true).congr
          (h ▸ s.pool.capacity_overwrite_lend hlength)
  | lendRandom size =>
    have hl : s.randomLoan size = l :=
      Option.some.inj ((s.live?_begin_self _ (s.pool.lend size true).2).symm.trans h)
    exact ⟨size, hl ▸ rfl, (s.pool.finds_lend size true).congr (hl ▸ s.capacity_randomLoan size)⟩
  | use i u =>
    have hlength : (s.perform (.use i u)).loans.length = s.loans.length := by
      rw [perform]
      split
      · exact List.length_set
      · rfl
    cases (live?_length_of_loans hlength).symm.trans h
  | takeBack i =>
    have hlength : (s.perform (.takeBack i)).loans.length = s.loans.length := by
      rw [perform]
      split
      · exact List.length_set
      · rfl
    cases (live?_length_of_loans hlength).symm.trans h

/-! ### Runs -/

theorem passes_foldl (s : Lending) (actions : List Action) :
    s.Passes (actions.foldl perform s) (s.turnoverOf actions) := by
  induction actions generalizing s with
  | nil => exact .refl s
  | cons a rest ih => exact (s.passes_perform a).trans (ih _)

/-- The counters of a pool tell what has become of its loans, and its buffers can be traced. Those
on loan are counted as such, those that are idle stay within the limit, and each wipe is of a
sensitive loan that ended or moved. Writing never needs more room than a buffer has, since only a
loan that outgrows its buffer gets another capacity. A buffer is made for a loan only if no idle one
has the room, and each buffer that was made is idle, on loan or dropped by a full pool. -/
theorem turnover_of_run (limit : Nat) (e : Entropy) (actions : List Action) :
    let s := run limit e actions
    let t := turnoverOf { pool := { limit := limit }, entropy := e } actions
    s.pool.outstanding = s.lent.length ∧
    s.pool.idle.length ≤ limit ∧
    s.pool.wiped = t.ended.countP (·.sensitive) + t.moved.countP (·.sensitive) ∧
    (∀ place l, s.live? place = some l → l.buffer.length ≤ l.buffer.capacity ∧
      ∀ a l', (s.perform a).live? place = some l' → l'.sensitive = l.sensitive ∧
        l'.buffer.capacity = (a.growth? place l).getD l.buffer.capacity) ∧
    (∀ size sensitive,
      s.pool.Finds size (s.pool.lend size sensitive).1 (s.pool.lend size sensitive).2) ∧
    (∀ a l, (s.perform a).live? s.loans.length = some l →
      ∃ size, a.request? = some (size, l.sensitive) ∧ s.pool.Finds size l (s.perform a).pool) ∧
    s.capacities + (t.dropped : List Nat) = (t.made : List Nat) ∧
    (t.dropped = [] → s.pool.idle.length + s.pool.outstanding = t.made.length) := by
  intro s t
  have hpasses : Passes { pool := { limit := limit }, entropy := e } s t := passes_foldl _ actions
  have houtstanding := hpasses.outstanding rfl
  have hplaced : s.capacities + (t.dropped : List Nat) = (t.made : List Nat) := by
    have hnone : capacities { pool := { limit := limit }, entropy := e } = 0 := rfl
    rw [hpasses.placed, hnone, zero_add]
  refine ⟨houtstanding, (hpasses.retained (Nat.zero_le limit)).trans hpasses.limit.le, ?_,
    fun place l hl => ⟨l.buffer.length_le, fun a l' hl' => kept_perform hl a hl'⟩,
    s.pool.finds_lend, fun a l hl => found_perform a hl, hplaced, fun hkept => ?_⟩
  · rw [hpasses.wiped, Nat.zero_add]
  · have hcard := congrArg Multiset.card hplaced
    rw [hkept, capacities, Pool.capacities, Loan.capacities, Multiset.coe_nil, add_zero,
      Multiset.card_add, Multiset.coe_card, Multiset.coe_card, Multiset.coe_card, List.length_map,
      List.length_map] at hcard
    rw [houtstanding, hcard]

/-- The first loan outgrows its buffer, a text that cannot be decoded is tried in the buffer that it
left, and the loan after that finds it idle again. -/
theorem turnover_of_run_outgrown :
    let s := run 2 (.scrambled 0)
      [.lend 2 true, .use 0 (.append [1, 2, 3]), .lendDecoded "A*", .lend 1 false]
    s.pool.wiped = 2 ∧ s.pool.idle.length + s.pool.outstanding = 2 ∧
      ∃ l, s.live? 0 = some l ∧ ∀ l', (s.perform (.use 0 (.resize 9))).live? 0 = some l' →
        l'.buffer.capacity = 10 := by
  intro s
  obtain ⟨-, -, hwiped, hloans, -, -, -, hmade⟩ := turnover_of_run 2 (.scrambled 0)
    [.lend 2 true, .use 0 (.append [1, 2, 3]), .lendDecoded "A*", .lend 1 false]
  have hlive : ∃ l, s.live? 0 = some l ∧ l.buffer.capacity = 5 := ⟨_, rfl, rfl⟩
  obtain ⟨l, hl, hcapacity⟩ := hlive
  refine ⟨hwiped.trans (by decide), (hmade (by decide)).trans (by decide), l, hl, fun l' hl' => ?_⟩
  obtain ⟨-, hkept⟩ := (hloans 0 l hl).2 (.use 0 (.resize 9)) l' hl'
  have hlength : l.buffer.length = 5 := by
    cases hl
    rfl
  rw [hkept, Action.growth?, if_pos rfl, Use.growth?, Use.need, hcapacity, hlength]
  rfl

end Lending

end TokenSeal
