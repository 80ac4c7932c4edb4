import TokenSeal.Proofs.Buffers
import TokenSeal.Proofs.Sealing
import TokenSeal.Proofs.Stored

/-! Compressing and decompressing into a loan, chunk by chunk, leaves there what is made in one go,
whatever the size of the chunks. -/

namespace TokenSeal

/-! ### Coders -/

namespace Deflate

namespace Coder

variable {σ : Type} (z : Coder σ)

/-- A turn with all of the input that is left. -/
abbrev turnAt (input : Bytes) (s : σ) (taken room : Nat) :
    Turn σ (input.drop taken) room :=
  z.turn s (input.drop taken) room

/-- Where a coder can be with some input when every turn so far has said that there is more to do:
how much it has taken, and what it has put out. -/
inductive Reaches (input : Bytes) : σ → Nat → Bytes → Prop
  | start : Reaches input z.start 0 []
  | turn {s : σ} {taken : Nat} {given : Bytes} {room : Nat} (h : Reaches input s taken given)
      (hroom : 0 < room) (hmore : (z.turnAt input s taken room).status = .more) :
      Reaches input (z.turnAt input s taken room).state
        (taken + (z.turnAt input s taken room).taken)
        (given ++ (z.turnAt input s taken room).given)

/-- However room is offered, a coder gets on until it has put out all of `output` and has taken so
many bytes, and then says that it has come to the end. -/
structure Delivers (input output : Bytes) (used : Nat) : Prop where
  ended : ∀ s taken given room, z.Reaches input s taken given → 0 < room →
    (z.turnAt input s taken room).status = .ended →
      taken + (z.turnAt input s taken room).taken = used ∧
        given ++ (z.turnAt input s taken room).given = output
  more : ∀ s taken given room, z.Reaches input s taken given → 0 < room →
    (z.turnAt input s taken room).status ≠ .ended →
      (z.turnAt input s taken room).status = .more ∧
        (0 < (z.turnAt input s taken room).given.length ∨
          0 < (z.turnAt input s taken room).taken) ∧
        taken + (z.turnAt input s taken room).taken ≤ used ∧
        given ++ (z.turnAt input s taken room).given <+: output

def NeverEnds (input : Bytes) : Prop :=
  ∀ s taken given room, z.Reaches input s taken given → 0 < room →
    (z.turnAt input s taken room).status ≠ .ended

/-- A coder that puts out the content of a stream at the front of its input, and does not come to an
end when there is none. -/
structure Inflating : Prop where
  delivers : ∀ input output used, Reads [] input output used → z.Delivers input output used
  neverEnds : ∀ input, (∀ output used, ¬ Reads [] input output used) → z.NeverEnds input

/-- A coder that takes all of its input and puts out the stream that `deflate` makes of it. -/
def Deflating (deflate : Bytes → Bytes) : Prop :=
  ∀ input, z.Delivers input (deflate input) input.length

end Coder

/-! ### Coders that do so -/

section Inflater

variable {input output given out : Bytes} {skipped taken used room : Nat} {ending : Ending}

theorem turn_inflater (h : inflateWithin (skipped + room) input = (out, ending)) :
    (inflater.turn skipped input room).status = ending.status ∧
      (inflater.turn skipped input room).taken = min ending.taken input.length ∧
      (inflater.turn skipped input room).given = (out.drop skipped).take room ∧
      (inflater.turn skipped input room).state = skipped + room := by
  simp [inflater, h]

theorem Ending.eq_full_of_status (h : ending.status = .more) : ending = .full := by
  cases ending with
  | full => rfl
  | _ => cases h

theorem taken_of_inflater (h : inflater.Reaches input skipped taken given) : taken = 0 := by
  induction h with
  | start => rfl
  | @turn s taken given room h hroom hmore ih =>
    rcases hread : inflateWithin (s + room) (input.drop taken) with ⟨out, ending⟩
    obtain ⟨hstatus, htaken, -⟩ := turn_inflater hread
    rw [Coder.turnAt, hstatus] at hmore
    rw [Ending.eq_full_of_status hmore] at htaken
    rw [Coder.turnAt, htaken, ih]
    exact Nat.zero_min (input.drop 0).length

/-- With room for the rest of the output the stream ends, and with less room it goes on. -/
theorem turn_inflater_of_reads (h : Reads [] input output used) (skipped room : Nat) :
    (output.length ≤ skipped + room ∧ (inflater.turn skipped input room).status = .ended ∧
        (inflater.turn skipped input room).taken = used ∧
        (inflater.turn skipped input room).given = output.drop skipped) ∨
      (skipped + room < output.length ∧ (inflater.turn skipped input room).status = .more ∧
        (inflater.turn skipped input room).taken = 0 ∧
        (inflater.turn skipped input room).given = (output.drop skipped).take room) := by
  by_cases hroom : output.length ≤ skipped + room
  · obtain ⟨hstatus, htaken, hgiven, -⟩ := turn_inflater (inflateWithin_of_reads h hroom)
    rw [List.take_of_length_le (by rw [List.length_drop]; omega)] at hgiven
    exact .inl ⟨hroom, hstatus, htaken.trans (Nat.min_eq_left h.used_le), hgiven⟩
  · rw [not_le] at hroom
    obtain ⟨hstatus, htaken, hgiven, -⟩ := turn_inflater (inflateWithin_cut h hroom)
    rw [List.drop_take, Nat.add_sub_cancel_left, List.take_take, Nat.min_self] at hgiven
    exact .inr ⟨hroom, hstatus, htaken.trans (Nat.zero_min _), hgiven⟩

theorem given_of_inflater (h : Reads [] input output used)
    (hreach : inflater.Reaches input skipped taken given) :
    given = output.take skipped ∧ skipped ≤ output.length := by
  induction hreach with
  | start => exact ⟨rfl, Nat.zero_le _⟩
  | @turn s taken given room hreach hroom hmore ih =>
    obtain ⟨rfl, hle⟩ := ih
    obtain rfl := taken_of_inflater hreach
    rw [Coder.turnAt, List.drop_zero] at hmore ⊢
    obtain ⟨-, hended, -⟩ | ⟨hlt, -, -, hgiven⟩ := turn_inflater_of_reads h s room
    · rw [hended] at hmore
      cases hmore
    · rw [hgiven, ← List.take_add]
      exact ⟨rfl, hlt.le⟩

theorem delivers_inflater (h : Reads [] input output used) :
    inflater.Delivers input output used where
  ended s taken given room hreach hroom hended := by
    obtain rfl := taken_of_inflater hreach
    obtain ⟨rfl, -⟩ := given_of_inflater h hreach
    rw [Coder.turnAt, List.drop_zero] at hended ⊢
    obtain ⟨-, -, htaken, hgiven⟩ | ⟨-, hmore, -⟩ := turn_inflater_of_reads h s room
    · rw [htaken, hgiven]
      exact ⟨Nat.zero_add used, List.take_append_drop s output⟩
    · rw [hmore] at hended
      cases hended
  more s taken given room hreach hroom hended := by
    obtain rfl := taken_of_inflater hreach
    obtain ⟨rfl, -⟩ := given_of_inflater h hreach
    rw [Coder.turnAt, List.drop_zero] at hended ⊢
    obtain ⟨-, hdone, -⟩ | ⟨hlt, hmore, htaken, hgiven⟩ := turn_inflater_of_reads h s room
    · exact absurd hdone hended
    · have hlength : ((output.drop s).take room).length = room := by
        rw [List.length_take, List.length_drop]
        omega
      rw [hmore, htaken, hgiven, hlength, ← List.take_add]
      exact ⟨rfl, .inl hroom, Nat.zero_le _, List.take_prefix _ _⟩

theorem inflating_inflater : inflater.Inflating where
  delivers _ _ _ h := delivers_inflater h
  neverEnds input hnone := by
    intro s taken given room hreach hroom hstatus
    obtain rfl := taken_of_inflater hreach
    rw [Coder.turnAt, List.drop_zero] at hstatus
    rcases hread : inflateWithin (s + room) input with ⟨out, ending⟩
    rw [(turn_inflater hread).1] at hstatus
    cases ending with
    | finished used => exact hnone out used (reads_of_inflateWithin hread)
    | _ => cases hstatus

end Inflater

/-! ### The deflater -/

section Deflater

variable {deflate : Bytes → Bytes} {input given : Bytes} {pending : Option Bytes} {taken room : Nat}

/-- Every turn takes all of the input, and the last one puts out all that is held back. -/
theorem turn_deflater (deflate : Bytes → Bytes) (pending : Option Bytes) (input : Bytes)
    (room : Nat) :
    ((deflater deflate).turn pending input room).taken = input.length ∧
      ((deflater deflate).turn pending input room).given =
        (pending.getD (deflate input)).take room ∧
      ((deflater deflate).turn pending input room).state =
        some ((pending.getD (deflate input)).drop room) ∧
      ((pending.getD (deflate input)).length ≤ room ∧
          ((deflater deflate).turn pending input room).status = .ended ∨
        room < (pending.getD (deflate input)).length ∧
          ((deflater deflate).turn pending input room).status = .more) := by
  refine ⟨rfl, rfl, rfl, ?_⟩
  by_cases hroom : (pending.getD (deflate input)).length ≤ room
  · exact .inl ⟨hroom, if_pos hroom⟩
  · exact .inr ⟨not_le.1 hroom, if_neg hroom⟩

/-- What the deflater has put out and what it holds back are the whole stream. -/
theorem given_of_deflater (h : (deflater deflate).Reaches input pending taken given) :
    given ++ pending.getD (deflate (input.drop taken)) = deflate input ∧
      taken ≤ input.length := by
  induction h with
  | start => exact ⟨by rw [List.drop_zero]; rfl, Nat.zero_le _⟩
  | @turn pending taken given room h hroom hmore ih =>
    obtain ⟨hwhole, hle⟩ := ih
    obtain ⟨htaken, hgiven, hstate, -⟩ := turn_deflater deflate pending (input.drop taken) room
    refine ⟨?_, ?_⟩
    · rw [Coder.turnAt, hstate, hgiven, Option.getD_some, List.append_assoc,
        List.take_append_drop, hwhole]
    · rw [Coder.turnAt, htaken, List.length_drop]
      omega

theorem deflating_deflater (deflate : Bytes → Bytes) : (deflater deflate).Deflating deflate :=
  fun input =>
  { ended := by
      intro pending taken given room hreach hroom hended
      obtain ⟨hwhole, hle⟩ := given_of_deflater hreach
      obtain ⟨htaken, hgiven, -, ⟨hfits, -⟩ | ⟨-, hmore⟩⟩ :=
        turn_deflater deflate pending (input.drop taken) room
      · rw [Coder.turnAt, htaken, hgiven, List.take_of_length_le hfits, List.length_drop]
        exact ⟨Nat.add_sub_cancel' hle, hwhole⟩
      · rw [Coder.turnAt, hmore] at hended
        cases hended
    more := by
      intro pending taken given room hreach hroom hended
      obtain ⟨hwhole, hle⟩ := given_of_deflater hreach
      obtain ⟨htaken, hgiven, -, ⟨-, hdone⟩ | ⟨hlong, hmore⟩⟩ :=
        turn_deflater deflate pending (input.drop taken) room
      · exact absurd hdone hended
      · rw [Coder.turnAt, hmore, htaken, hgiven, List.length_take, List.length_drop, ← hwhole]
        exact ⟨rfl, .inl (by omega), by omega,
          (List.prefix_append_right_inj given).2 (List.take_prefix _ _)⟩ }

end Deflater

end Deflate

/-! ### Growing loans -/

theorem Buffer.visible_write {b : Buffer} {place : Nat} {data : Bytes}
    (h : place + data.length ≤ b.length) :
    (b.write place data).visible =
      b.visible.take place ++ data ++ b.visible.drop (place + data.length) := by
  have hle := b.length_le
  have hfront : (b.cells.take place ++ data).length = place + data.length := by
    rw [List.length_append, List.length_take]
    omega
  have hplace : min place b.length = place := by omega
  have hrest : place + data.length + (b.length - (place + data.length)) = b.length := by omega
  calc (b.write place data).visible
      = (b.cells.take place ++ data ++ b.cells.drop (place + data.length)).take b.length := rfl
    _ = b.cells.take place ++ data ++
          (b.cells.drop (place + data.length)).take (b.length - (place + data.length)) := by
        rw [← hrest, ← hfront, List.take_length_add_append, Nat.add_sub_cancel_left]
    _ = b.visible.take place ++ data ++ b.visible.drop (place + data.length) := by
        rw [visible, List.take_take, List.drop_take, hplace]

namespace Compressor

variable {σ : Type} {z : Deflate.Coder σ} {chunk taken used limit : Nat} {data output given : Bytes}
  {s : σ} {l : Loan} {p : Pool}

/-- After a turn the loan shows what was put out behind what it showed before. -/
theorem visible_cut_grow (z : Deflate.Coder σ) (chunk : Nat) (input : Bytes) (s : σ) (l : Loan)
    (p : Pool) : (grow z chunk input s l p).cut.visible =
      l.visible ++ (grow z chunk input s l p).turn.given := by
  have hlength : l.buffer.length = l.visible.length := l.buffer.length_visible.symm
  obtain ⟨t, ht⟩ : ∃ t, z.turn s input chunk = t := ⟨_, rfl⟩
  have hroom := t.given_le
  have hresized : (l.resize p (l.buffer.length + chunk)).1.visible =
      l.visible ++ Bytes.zeros chunk := by
    rw [Loan.visible_resize, hlength, List.take_of_length_le (by omega), Nat.add_sub_cancel_left]
  have hwritten : ((l.resize p (l.buffer.length + chunk)).1.write l.buffer.length t.given).visible =
      l.visible ++ t.given ++ (Bytes.zeros chunk).drop t.given.length := by
    have hfits : l.buffer.length + t.given.length ≤
        (l.resize p (l.buffer.length + chunk)).1.buffer.length := by
      have hnew : (l.resize p (l.buffer.length + chunk)).1.buffer.length =
          l.buffer.length + chunk := Buffer.length_resize _ _
      omega
    have hwrite := Buffer.visible_write hfits
    change _ = (l.resize p (l.buffer.length + chunk)).1.visible.take _ ++ t.given ++
      (l.resize p (l.buffer.length + chunk)).1.visible.drop _ at hwrite
    rw [hresized, hlength, List.take_left, List.drop_length_add_append] at hwrite
    rw [← hlength] at hwrite
    exact hwrite
  change (((l.resize p (l.buffer.length + chunk)).1.write l.buffer.length
    (z.turn s input chunk).given).truncate _).visible = _ ++ (z.turn s input chunk).given
  rw [ht, Loan.visible_truncate, hwritten, hlength, ← List.length_append, List.take_left]

theorem length_visible_cut_grow (z : Deflate.Coder σ) (chunk : Nat) (input : Bytes) (s : σ)
    (l : Loan) (p : Pool) : (grow z chunk input s l p).cut.buffer.length =
      (l.visible ++ (grow z chunk input s l p).turn.given).length := by
  rw [← visible_cut_grow, Loan.visible, Buffer.length_visible]

/-! ### Inflating -/

section Inflate

variable {cancelled : Nat → Bool} (hlive : ∀ turns, cancelled turns = false) (hchunk : 0 < chunk)

include hlive hchunk

/-- When the loop comes to an end without a failure, the coder said that the stream had ended. -/
theorem inflateInto_cases (limit turns : Nat) (hreach : z.Reaches data s taken l.visible) :
    (∃ cause l' p', inflateInto z limit chunk cancelled data turns s taken l p =
      (.error (.format cause), l', p')) ∨
    ∃ s' taken' given, z.Reaches data s' taken' given ∧
      (z.turnAt data s' taken' chunk).status = .ended ∧
      ∃ l' p', inflateInto z limit chunk cancelled data turns s taken l p =
          (.ok (taken' + (z.turnAt data s' taken' chunk).taken), l', p') ∧
        l'.visible = given ++ (z.turnAt data s' taken' chunk).given ∧
        l'.visible.length ≤ limit := by
  fun_induction inflateInto z limit chunk cancelled data turns s taken l p with
  | case1 turns s taken l p hcancel => simp [hlive] at hcancel
  | case2 turns s taken l p hgo g hfailed => exact .inl ⟨_, _, _, rfl⟩
  | case3 turns s taken l p hgo g hstatus hlong => exact .inl ⟨_, _, _, rfl⟩
  | case4 turns s taken l p hgo g hstatus hfits hended =>
    have hvisible : g.cut.visible = l.visible ++ g.turn.given := visible_cut_grow z chunk _ s l p
    refine .inr ⟨s, taken, l.visible, hreach, hended, g.cut, g.pool, rfl, hvisible, ?_⟩
    rw [Loan.visible, Buffer.length_visible]
    omega
  | case5 turns s taken l p hgo g hstatus hfits hended hmore ih =>
    have hvisible : g.cut.visible = l.visible ++ g.turn.given := visible_cut_grow z chunk _ s l p
    exact ih (hvisible ▸ .turn hreach hchunk hmore.1)
  | case6 turns s taken l p hgo g hstatus hfits hended hstuck => exact .inl ⟨_, _, _, rfl⟩

/-- A coder that gets on brings the loop to its end when the output is within the limit. -/
theorem inflateInto_of_delivers (hz : z.Delivers data output used) (hlimit : output.length ≤ limit)
    (turns : Nat) (hreach : z.Reaches data s taken l.visible) :
    ∃ l' p', inflateInto z limit chunk cancelled data turns s taken l p = (.ok used, l', p') ∧
      l'.visible = output := by
  fun_induction inflateInto z limit chunk cancelled data turns s taken l p with
  | case1 turns s taken l p hcancel => simp [hlive] at hcancel
  | case2 turns s taken l p hgo g hfailed =>
    have hstatus : (z.turnAt data s taken chunk).status = .failed := hfailed
    have hmore := (hz.more s taken l.visible chunk hreach hchunk (by rw [hstatus]; decide)).1
    rw [hstatus] at hmore
    cases hmore
  | case3 turns s taken l p hgo g hstatus hlong =>
    -- What is there is a front of the output, which is within the limit.
    have hlength : g.cut.buffer.length = (l.visible ++ g.turn.given).length :=
      length_visible_cut_grow z chunk _ s l p
    have hfront : l.visible ++ g.turn.given <+: output := by
      by_cases hended : (z.turnAt data s taken chunk).status = .ended
      · exact (hz.ended s taken l.visible chunk hreach hchunk hended).2 ▸ List.prefix_rfl
      · exact (hz.more s taken l.visible chunk hreach hchunk hended).2.2.2
    have hle := hfront.length_le
    omega
  | case4 turns s taken l p hgo g hstatus hfits hended =>
    have hvisible : g.cut.visible = l.visible ++ g.turn.given := visible_cut_grow z chunk _ s l p
    obtain ⟨htaken, hgiven⟩ := hz.ended s taken l.visible chunk hreach hchunk hended
    exact ⟨g.cut, g.pool, by rw [← htaken]; rfl, hvisible.trans hgiven⟩
  | case5 turns s taken l p hgo g hstatus hfits hended hmore ih =>
    have hvisible : g.cut.visible = l.visible ++ g.turn.given := visible_cut_grow z chunk _ s l p
    exact ih (hvisible ▸ .turn hreach hchunk hmore.1)
  | case6 turns s taken l p hgo g hstatus hfits hended hstuck =>
    obtain ⟨hmore, hprogress, -⟩ := hz.more s taken l.visible chunk hreach hchunk hended
    exact absurd ⟨hmore, hprogress⟩ hstuck

end Inflate

/-! ### Deflating -/

/-- Every turn but the last takes something or puts something out, so the turns can be counted. -/
theorem deflateInto_of_delivers (hchunk : 0 < chunk) (hz : z.Delivers data output used)
    (hreach : z.Reaches data s taken l.visible) :
    ∃ l' p', l'.visible = output ∧
      ∀ turns, used - taken + (output.length - l.visible.length) < turns →
        deflateInto z chunk data turns s taken l p = some (.ok (), l', p') := by
  induction hleft : used - taken + (output.length - l.visible.length) using Nat.strongRecOn
    generalizing s taken l p with
  | _ left ih =>
    obtain ⟨g, hg⟩ : ∃ g, grow z chunk (data.drop taken) s l p = g := ⟨_, rfl⟩
    have hvisible : g.cut.visible = l.visible ++ g.turn.given := by
      rw [← hg]
      exact visible_cut_grow z chunk _ s l p
    have hturn : g.turn = z.turnAt data s taken chunk := by
      rw [← hg]
      rfl
    by_cases hended : g.turn.status = .ended
    · rw [hturn] at hended
      obtain ⟨-, hgiven⟩ := hz.ended s taken l.visible chunk hreach hchunk hended
      rw [← hturn] at hended hgiven
      refine ⟨g.cut, g.pool, hvisible.trans hgiven, fun turns hturns => ?_⟩
      obtain ⟨turns, rfl⟩ := Nat.exists_eq_add_one_of_ne_zero (Nat.ne_zero_of_lt hturns)
      simp only [deflateInto, hg, hended]
    · rw [hturn] at hended
      obtain ⟨hmore, hprogress, hused, hfront⟩ :=
        hz.more s taken l.visible chunk hreach hchunk hended
      have hreach' := Deflate.Coder.Reaches.turn hreach hchunk hmore
      rw [← hturn] at hmore hprogress hused hfront hreach'
      rw [← hvisible] at hfront hreach'
      have hle := hfront.length_le
      have hlength : g.cut.visible.length = l.visible.length + g.turn.given.length := by
        rw [hvisible, List.length_append]
      obtain ⟨l', p', hvisible', hrest⟩ := ih _ (by omega) (p := g.pool) hreach' rfl
      refine ⟨l', p', hvisible', fun turns hturns => ?_⟩
      obtain ⟨turns, rfl⟩ := Nat.exists_eq_add_one_of_ne_zero (Nat.ne_zero_of_lt hturns)
      simp only [deflateInto, hg, hmore]
      exact hrest turns (by omega)

/-! ### In one go -/

theorem inflate_eq_ok : inflate limit data = .ok output ↔
    Deflate.Inflates data output ∧ output.length ≤ limit := by
  constructor
  · intro h
    rcases hread : Deflate.inflateWithin (inflateLimit limit) data with ⟨out, ending⟩
    cases ending with
    | finished used =>
      simp only [inflate, hread, decide_eq_true_eq] at h
      split at h
      · cases h
      · next hfits =>
        split at h
        · cases h
        · next hused =>
          cases h
          rw [not_not] at hused
          exact ⟨Deflate.reads_of_inflateWithin (hused ▸ hread), Nat.not_lt.1 hfits⟩
    | _ => simp [inflate, hread] at h
  · rintro ⟨hreads, hfits⟩
    exact inflate_of_finished (fun _ => Deflate.inflateWithin_of_reads hreads) hfits

theorem inflate_format (limit : Nat) (data : Bytes) :
    (∃ output, inflate limit data = .ok output) ∨
      ∃ cause, inflate limit data = .error (.format cause) := by
  unfold inflate
  dsimp only
  split
  · exact .inr ⟨_, rfl⟩
  · exact .inr ⟨_, rfl⟩
  · exact .inr ⟨_, rfl⟩
  · split
    · exact .inr ⟨_, rfl⟩
    · split
      · exact .inr ⟨_, rfl⟩
      · exact .inl ⟨_, rfl⟩

theorem decompress_format (c : Compressor) (data : Bytes) :
    (∃ output, c.decompress data = .ok output) ∨
      ∃ cause, c.decompress data = .error (.format cause) := by
  unfold decompress
  split
  · split
    · exact .inr ⟨_, rfl⟩
    · exact .inl ⟨_, rfl⟩
  · exact inflate_format c.limit data

theorem decompress_of_deflate {c : Compressor} (hc : c.method = .deflate) (data : Bytes) :
    c.decompress data = inflate c.limit data := by
  rw [decompress, hc]

/-! ### In chunks -/

theorem visible_emptied (l : Loan) : (l.truncate 0).visible = [] := by
  rw [Loan.visible_truncate, List.take_zero]

theorem visible_replaced (l : Loan) (p : Pool) (data : Bytes) :
    ((l.truncate 0).append p data).1.visible = data := by
  rw [Loan.visible_append, visible_emptied, List.nil_append]

section Into

variable {c : Compressor} {deflate : Bytes → Bytes}

theorem compressInto_eq (hchunk : 0 < chunk) (hz : z.Deflating deflate) (data : Bytes) (l : Loan)
    (p : Pool) :
    ∃ l' p', l'.visible = c.compress data deflate ∧
      ∀ turns, data.length + (c.compress data deflate).length < turns →
        c.compressInto z chunk turns data l p = some (.ok (), l', p') := by
  unfold compressInto compress
  cases c.method with
  | identity => exact ⟨_, _, visible_replaced l p data, fun _ _ => rfl⟩
  | deflate =>
    have hstart : z.Reaches data z.start 0 (l.truncate 0).visible := visible_emptied l ▸ .start
    obtain ⟨l', p', hvisible, hrun⟩ := deflateInto_of_delivers (p := p) hchunk (hz data) hstart
    rw [visible_emptied, List.length_nil, Nat.sub_zero, Nat.sub_zero] at hrun
    dsimp only
    exact ⟨l', p', hvisible, hrun⟩

section Live

variable {cancelled : Nat → Bool} (hlive : ∀ turns, cancelled turns = false) (hchunk : 0 < chunk)

include hlive hchunk

/-- Without a whole stream whose content is within the limit, the loop fails or leaves some input. -/
theorem inflateInto_refused (hz : z.Inflating)
    (hnone : ¬ ∃ output, Deflate.Inflates data output ∧ output.length ≤ limit)
    (hstart : z.Reaches data z.start 0 l.visible) :
    (∃ cause l' p', inflateInto z limit chunk cancelled data 0 z.start 0 l p =
      (.error (.format cause), l', p')) ∨
    ∃ used l' p', used ≠ data.length ∧
      inflateInto z limit chunk cancelled data 0 z.start 0 l p = (.ok used, l', p') := by
  obtain hfailed | ⟨s, taken, given, hreach, hended, l', p', hinto, hvisible, hlength⟩ :=
    inflateInto_cases (p := p) hlive hchunk limit 0 hstart
  · exact .inl hfailed
  -- The coder has come to an end, so there is a stream at the front.
  obtain ⟨output, used, hreads⟩ : ∃ output used, Deflate.Reads [] data output used := by
    by_contra hempty
    exact hz.neverEnds data (fun output used h => hempty ⟨output, used, h⟩) s taken given chunk
      hreach hchunk hended
  obtain ⟨htaken, hgiven⟩ := (hz.delivers data output used hreads).ended s taken given chunk
    hreach hchunk hended
  rw [hgiven] at hvisible
  rw [hvisible] at hlength
  refine .inr ⟨used, l', p', ?_, by rw [hinto, htaken]⟩
  rintro rfl
  exact hnone ⟨output, hreads, hlength⟩

/-- What is left in a loan is what comes out in one go, and where nothing does the loop fails too. -/
theorem decompressInto_inflating (hc : c.method = .deflate) (hz : z.Inflating) (data : Bytes)
    (l : Loan) (p : Pool) :
    (∃ output l' p', c.decompress data = .ok output ∧
      c.decompressInto z chunk cancelled data l p = (.ok (), l', p') ∧ l'.visible = output) ∨
    ∃ cause cause' l' p', c.decompress data = .error (.format cause) ∧
      c.decompressInto z chunk cancelled data l p = (.error (.format cause'), l', p') := by
  have hstart : z.Reaches data z.start 0 (l.truncate 0).visible := visible_emptied l ▸ .start
  rw [decompress_of_deflate hc, decompressInto, hc]
  by_cases hwhole : ∃ output, Deflate.Inflates data output ∧ output.length ≤ c.limit
  · obtain ⟨output, hreads, hlimit⟩ := hwhole
    obtain ⟨l', p', hinto, hvisible⟩ := inflateInto_of_delivers (p := p) hlive hchunk
      (hz.delivers data output data.length hreads) hlimit 0 hstart
    refine .inl ⟨output, l', p', inflate_eq_ok.2 ⟨hreads, hlimit⟩, ?_, hvisible⟩
    simp only [hinto]
    exact if_neg (not_not.2 rfl)
  · obtain ⟨cause, hcause⟩ : ∃ cause, inflate c.limit data = .error (.format cause) :=
      (inflate_format c.limit data).resolve_left fun ⟨output, hok⟩ =>
        hwhole ⟨output, inflate_eq_ok.1 hok⟩
    obtain ⟨cause', l', p', hinto⟩ | ⟨used, l', p', hused, hinto⟩ :=
      inflateInto_refused (p := p) hlive hchunk hz hwhole hstart
    · exact .inr ⟨cause, cause', l', p', hcause, by simp only [hinto]⟩
    · refine .inr ⟨cause, .deflateTrailing, l', p', hcause, ?_⟩
      simp only [hinto]
      exact if_pos hused

end Live

theorem decompressInto_identity (hc : c.method = .identity) (z : Deflate.Coder σ) (chunk : Nat)
    (cancelled : Nat → Bool) (data : Bytes) (l : Loan) (p : Pool) :
    (∃ l' p', c.decompress data = .ok data ∧
      c.decompressInto z chunk cancelled data l p = (.ok (), l', p') ∧ l'.visible = data) ∨
    (c.decompress data = .error (.format .payloadTooLong) ∧ ∃ l' p',
      c.decompressInto z chunk cancelled data l p =
        (.error (.format .payloadTooLong), l', p')) := by
  rw [decompress, decompressInto, hc]
  by_cases hlong : c.limit < data.length
  · exact .inr ⟨if_pos hlong, _, _, if_pos hlong⟩
  · exact .inl ⟨_, _, if_neg hlong, if_neg hlong, visible_replaced l p data⟩

theorem decompressInto_alike (hchunk : 0 < chunk) (hz : z.Inflating) (data : Bytes) (l : Loan)
    (p : Pool) :
    (∃ output l' p', c.decompress data = .ok output ∧
      c.decompressInto z chunk (fun _ => false) data l p = (.ok (), l', p') ∧
        l'.visible = output) ∨
    ∃ cause cause' l' p', c.decompress data = .error (.format cause) ∧
      c.decompressInto z chunk (fun _ => false) data l p =
        (.error (.format cause'), l', p') := by
  cases hc : c.method with
  | identity =>
    obtain ⟨l', p', hout, hinto, hvisible⟩ | ⟨hout, l', p', hinto⟩ :=
      decompressInto_identity hc z chunk (fun _ => false) data l p
    · exact .inl ⟨data, l', p', hout, hinto, hvisible⟩
    · exact .inr ⟨_, _, l', p', hout, hinto⟩
  | deflate => exact decompressInto_inflating (fun _ => rfl) hchunk hc hz data l p

theorem decompressInto_cancelled (hc : c.method = .deflate) {cancelled : Nat → Bool}
    (hcancel : cancelled 0 = true) (z : Deflate.Coder σ) (chunk : Nat) (data : Bytes) (l : Loan)
    (p : Pool) : (c.decompressInto z chunk cancelled data l p).1 = .error .cancelled := by
  rw [decompressInto, hc]
  simp only
  rw [inflateInto, if_pos hcancel]

/-- How a compressor of either method works, with an inflater, a deflater that makes streams in
chunks or in one go, and a size of chunks. -/
structure Works {τ : Type} (c : Compressor) (i : Deflate.Coder σ) (d : Deflate.Coder τ)
    (deflate : Bytes → Bytes) (chunk : Nat) : Prop where
  inflated : c.method = .deflate → ∀ data output, c.decompress data = .ok output ↔
    Deflate.Inflates data output ∧ output.length ≤ c.limit
  refused : ∀ data, (¬ ∃ output, c.decompress data = .ok output) →
    ∃ cause, c.decompress data = .error (.format cause)
  conforming : c.method = .deflate → ∀ data output, Deflate.Conforms data output →
    output.length ≤ c.limit → c.decompress data = .ok output
  trailing : c.method = .deflate → ∀ data output more, Deflate.Inflates data output → more ≠ [] →
    ∃ cause, c.decompress (data ++ more) = .error (.format cause)
  truncated : c.method = .deflate → ∀ data output more, Deflate.Inflates (data ++ more) output →
    more ≠ [] → ∃ cause, c.decompress data = .error (.format cause)
  into : ∀ data l p,
    (∃ output l' p', c.decompress data = .ok output ∧
      c.decompressInto i chunk (fun _ => false) data l p = (.ok (), l', p') ∧
        l'.visible = output) ∨
    ∃ cause cause' l' p', c.decompress data = .error (.format cause) ∧
      c.decompressInto i chunk (fun _ => false) data l p = (.error (.format cause'), l', p')
  cancelled : c.method = .deflate → ∀ cancelled, cancelled 0 = true → ∀ data l p,
    c.decompressUnless true data = .error .cancelled ∧
      (c.decompressInto i chunk cancelled data l p).1 = .error .cancelled
  compressed : ∀ data l p, ∃ l' p', l'.visible = c.compress data deflate ∧
    ∀ turns, data.length + (c.compress data deflate).length < turns →
      c.compressInto d chunk turns data l p = some (.ok (), l', p')
  restored : ∀ data, data.length ≤ c.limit → c.decompress (c.compress data deflate) = .ok data

theorem exists_cause {c : Compressor} {data : Bytes}
    (h : ¬ ∃ output, c.decompress data = .ok output) :
    ∃ cause, c.decompress data = .error (.format cause) :=
  (c.decompress_format data).resolve_left h

/-- Whatever the size of the chunks and whatever coders are used, as long as each comes to the end
of its stream in any room that it is offered and the streams of the deflater inflate to what they
are made of. -/
theorem works {τ : Type} (c : Compressor) {i : Deflate.Coder σ} {d : Deflate.Coder τ}
    (hi : i.Inflating) (hd : d.Deflating deflate) (hrestores : Deflate.Restores deflate)
    (hchunk : 0 < chunk) : c.Works i d deflate chunk where
  inflated hc data output := by rw [decompress_of_deflate hc, inflate_eq_ok]
  refused data h := exists_cause h
  conforming hc data output hconforms hlimit := by
    rw [decompress_of_deflate hc, inflate_eq_ok]
    exact ⟨hconforms.inflates, hlimit⟩
  trailing hc data output more hwhole hmore := by
    refine exists_cause fun ⟨output', hok⟩ => ?_
    rw [decompress_of_deflate hc, inflate_eq_ok] at hok
    exact hwhole.not_append hmore hok.1
  truncated hc data output more hwhole hmore := by
    refine exists_cause fun ⟨output', hok⟩ => ?_
    rw [decompress_of_deflate hc, inflate_eq_ok] at hok
    exact hok.1.not_append hmore hwhole
  into := decompressInto_alike hchunk hi
  cancelled hc _ hcancel data l p :=
    ⟨if_pos ⟨rfl, hc⟩, decompressInto_cancelled hc hcancel i chunk data l p⟩
  compressed := compressInto_eq hchunk hd
  restored _ := decompress_compress hrestores

theorem works_chunkSize :
    let deflate := Deflate.store
    let c : Compressor :=
      ⟨⟨"DEF", .none, [.exact 0], 0, .compression .deflate⟩, .deflate, defaultLimit⟩
    Deflate.inflater.Inflating ∧ (Deflate.deflater deflate).Deflating deflate ∧
      Deflate.Restores deflate ∧ 0 < chunkSize ∧
      c.Works Deflate.inflater (Deflate.deflater deflate) deflate chunkSize := by
  intro deflate c
  have hinflating := Deflate.inflating_inflater
  have hdeflating := Deflate.deflating_deflater deflate
  have hrestores := Deflate.restores_store
  have hchunk : 0 < chunkSize := by decide
  exact ⟨hinflating, hdeflating, hrestores, hchunk, works c hinflating hdeflating hrestores hchunk⟩

/-- A match that begins before the output is not refused: it finds zeros there. -/
theorem decompress_behind :
    let c : Compressor :=
      ⟨⟨"DEF", .none, [.exact 0], 0, .compression .deflate⟩, .deflate, 4⟩
    let stream : Bytes := [0x73, 0x04, 0x42, 0x00]
    c.decompress stream = .ok [0x41, 0x00, 0x41, 0x00] ∧
      ∀ content, ¬ Deflate.Conforms stream content := by
  have hzeros : Deflate.Reads [] [0x73, 0x04, 0x42, 0x00] [0x41, 0x00, 0x41, 0x00] 4 :=
    ⟨4, by decide +kernel⟩
  have hsevens : Deflate.Reads [0x07] [0x73, 0x04, 0x42, 0x00] [0x41, 0x07, 0x41, 0x07] 4 :=
    ⟨5, by decide +kernel⟩
  refine ⟨?_, fun content hconforms => ?_⟩
  · rw [decompress_of_deflate rfl, inflate_eq_ok]
    exact ⟨hzeros, by decide⟩
  · obtain ⟨hfirst, -⟩ := (hconforms []).unique hzeros
    obtain ⟨hsecond, -⟩ := (hconforms [0x07]).unique hsevens
    rw [hfirst] at hsecond
    exact absurd hsecond (by decide)

end Into

end Compressor

end TokenSeal
