import TokenSeal.Memory.Pool
import TokenSeal.Proofs.Draw

/-! What is seen of a buffer after each operation, on its own, on loan and in the pool. No operation
brings spare bytes into view, and an idle buffer shows nothing. -/

namespace TokenSeal

namespace Buffer

theorem length_visible (b : Buffer) : b.visible.length = b.length := by
  have hle := b.length_le
  rw [visible, List.length_take]
  omega

theorem visible_allocate (capacity : Nat) : (allocate capacity).visible = [] := by
  rw [visible, allocate, List.take_zero]

theorem visible_truncate (b : Buffer) (n : Nat) : (b.truncate n).visible = b.visible.take n := by
  rw [visible, visible, truncate, List.take_take]

theorem visible_append (b : Buffer) (data : Bytes) :
    (b.append data).visible = b.visible ++ data := by
  have hlength : (b.visible ++ data).length = b.length + data.length := by
    rw [List.length_append, length_visible]
  exact List.take_left' hlength

theorem visible_resize (b : Buffer) (n : Nat) :
    (b.resize n).visible = b.visible.take n ++ Bytes.zeros (n - b.visible.length) := by
  rw [length_visible]
  by_cases hn : n ≤ b.length
  · have hnone : n - b.length = 0 := by omega
    rw [resize, if_pos hn, visible_truncate, hnone]
    exact (List.append_nil _).symm
  · have hall : b.visible.length ≤ n := by
      rw [length_visible]
      omega
    rw [resize, if_neg hn, visible_append, List.take_of_length_le hall]

theorem visible_overwrite (b : Buffer) (data : Bytes) : (b.overwrite data).visible = data := by
  rw [overwrite, visible_append, visible_truncate, List.take_zero, List.nil_append]

theorem visible_clear (b : Buffer) : b.clear.visible = [] := by
  rw [clear, visible_truncate, List.take_zero]

theorem visible_wipe (b : Buffer) : b.wipe.visible = [] :=
  visible_allocate _

theorem visible_resize_of_nil {b : Buffer} (h : b.visible = []) (n : Nat) :
    (b.resize n).visible = Bytes.zeros n := by
  rw [visible_resize, h, List.take_nil, List.nil_append, List.length_nil, Nat.sub_zero]

end Buffer

/-! ### On loan -/

namespace Loan

variable (p : Pool) (l : Loan)

/-- A loan that moves to a new buffer takes along what can be seen. -/
theorem visible_reserve (more : Nat) : (l.reserve p more).1.visible = l.visible := by
  unfold reserve
  dsimp only
  split
  · rfl
  · rw [visible, Buffer.visible_append, Buffer.visible_allocate, List.nil_append]

theorem visible_append (data : Bytes) : (l.append p data).1.visible = l.visible ++ data := by
  rw [append, visible, Buffer.visible_append]
  exact congrArg (· ++ data) (visible_reserve p l data.length)

theorem visible_truncate (n : Nat) : (l.truncate n).visible = l.visible.take n :=
  l.buffer.visible_truncate n

theorem visible_resize (n : Nat) :
    (l.resize p n).1.visible = l.visible.take n ++ Bytes.zeros (n - l.visible.length) := by
  have hsame := visible_reserve p l (n - l.buffer.length)
  rw [resize, visible, Buffer.visible_resize]
  exact congrArg (fun bytes : Bytes => bytes.take n ++ Bytes.zeros (n - bytes.length)) hsame

theorem visible_fill (b : UInt8) : (l.fill b).visible = List.replicate l.visible.length b := by
  rw [fill, visible, Buffer.visible_overwrite, visible, Buffer.length_visible]

end Loan

/-! ### In the pool -/

/-- There is room for what a text decodes to in a buffer of the length that the text calls for. -/
theorem Base64Url.decodeInto_of_le {text : String} {buffer : Bytes} {size : Nat}
    (hsize : decodedLength text.utf8ByteSize = .ok size) (hbuffer : size ≤ buffer.length) :
    decodeInto text buffer = (decode text).map fun bytes => (bytes, overwrite buffer bytes) := by
  simp only [decodeInto, hsize, ok_bind, Nat.not_lt.2 hbuffer, if_false]
  cases decode text <;> rfl

namespace Pool

variable {p : Pool} {size : Nat}

/-- No idle buffer shows anything, whatever it still has beyond its length. -/
def Tidy (p : Pool) : Prop := ∀ b ∈ p.idle, b.visible = []

theorem mem_of_mem_takeOut {α : Type} {items : List α} {i : Nat} {a : α}
    (h : a ∈ takeOut items i) : a ∈ items := by
  unfold takeOut at h
  split at h
  · next last hlast =>
    rcases List.mem_or_eq_of_mem_set (List.mem_of_mem_dropLast h) with hold | rfl
    · exact hold
    · exact List.mem_of_getLast? hlast
  · exact nomatch h

theorem reuse?_eq_some {b : Buffer} {rest : List Buffer} (h : p.reuse? size = some (b, rest)) :
    b ∈ p.idle ∧ size ≤ b.capacity ∧ ∃ i, p.idle[i]? = some b ∧ rest = takeOut p.idle i := by
  unfold reuse? at h
  split at h
  · next i hi =>
    obtain ⟨b', hb', hpair⟩ := Option.map_eq_some_iff.1 h
    cases hpair
    obtain ⟨hlt, hroom, -⟩ := List.findIdx?_eq_some_iff_getElem.1 hi
    obtain rfl : p.idle[i] = b := by
      rw [List.getElem?_eq_getElem hlt] at hb'
      exact Option.some.inj hb'
    exact ⟨List.getElem_mem hlt, by simpa using hroom, i, hb', rfl⟩
  · exact nomatch h

theorem visible_lend (h : p.Tidy) (size : Nat) (sensitive : Bool) :
    (p.lend size sensitive).1.visible = Bytes.zeros size := by
  unfold lend
  split
  · next b rest hb => exact Buffer.visible_resize_of_nil (h b (reuse?_eq_some hb).1) size
  · exact Buffer.visible_resize_of_nil (Buffer.visible_allocate size) size

theorem Tidy.lend (h : p.Tidy) (size : Nat) (sensitive : Bool) : (p.lend size sensitive).2.Tidy := by
  unfold Pool.lend
  split
  · next b rest hb =>
    obtain ⟨-, -, i, -, rfl⟩ := reuse?_eq_some hb
    exact fun b' hb' => h b' (mem_of_mem_takeOut hb')
  · exact h

theorem Tidy.store (h : p.Tidy) (b : Buffer) (sensitive : Bool) : (p.store b sensitive).Tidy := by
  have hnew : (if sensitive then b.wipe else b.clear).visible = [] := by
    cases sensitive
    · exact b.visible_clear
    · exact b.visible_wipe
  intro b' hb'
  simp only [Pool.store] at hb'
  split at hb'
  · rcases List.mem_append.1 hb' with hold | hlast
    · exact h b' hold
    · rw [List.mem_singleton.1 hlast, hnew]
  · exact h b' hb'

theorem Tidy.takeBack (h : p.Tidy) (l : Loan) : (p.takeBack l).Tidy :=
  h.store l.buffer l.sensitive

theorem Tidy.reserve (h : p.Tidy) (l : Loan) (more : Nat) : (l.reserve p more).2.Tidy := by
  unfold Loan.reserve
  dsimp only
  split
  · exact h
  · exact h.store l.buffer l.sensitive

/-- Where a text can be decoded it is lent as its bytes, and where not it fails in the same way. -/
theorem visible_lendDecoded (h : p.Tidy) (text : String) :
    (p.lendDecoded text).1.map Loan.visible = Base64Url.decode text := by
  unfold Pool.lendDecoded
  cases hsize : Base64Url.decodedLength text.utf8ByteSize with
  | error e => simp [Base64Url.decode, hsize]
  | ok size =>
    have hlength : (p.lend size true).1.buffer.visible.length = size := by
      have hlent : (p.lend size true).1.buffer.visible = Bytes.zeros size := visible_lend h size true
      rw [hlent, Bytes.length_zeros]
    dsimp only
    rw [Base64Url.decodeInto_of_le hsize hlength.ge]
    cases Base64Url.decode text with
    | error e => rfl
    | ok bytes => exact congrArg Except.ok (Buffer.visible_overwrite _ bytes)

theorem Tidy.lendDecoded (h : p.Tidy) (text : String) : (p.lendDecoded text).2.Tidy := by
  unfold Pool.lendDecoded
  split
  · exact h
  · next size hsize =>
    have hlent := h.lend size true
    dsimp only
    split
    · exact hlent.takeBack _
    · exact hlent

theorem lendRandom_apply (p : Pool) (size : Nat) (e : Entropy) :
    p.lendRandom size e = (.ok (⟨(p.lend size true).1.buffer.overwrite (e.take size), true⟩,
      (p.lend size true).2), e.advance size) := rfl

end Pool

end TokenSeal
