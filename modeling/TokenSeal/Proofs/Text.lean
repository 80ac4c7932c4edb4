import Mathlib
import TokenSeal.Token.Compact

/-! Texts as bytes, and segments between dots. -/

namespace TokenSeal

/-! ### UTF-8 -/

namespace Bytes

theorem toText?_ofText (s : String) : toText? (ofText s) = some s := by
  have hvalid : s.toByteArray.IsValidUTF8 := s.isValidUTF8
  simp [toText?, ofText, String.fromUTF8?, hvalid, String.fromUTF8]

theorem ofText_injective : Function.Injective ofText := by
  intro s t h
  have hread := congrArg toText? h
  rw [toText?_ofText, toText?_ofText] at hread
  exact Option.some.inj hread

theorem length_ofText (s : String) : (ofText s).length = s.utf8ByteSize := by
  simp [ofText]

end Bytes

theorem utf8ByteSize_ofList_of_ascii {cs : List Char} (h : ∀ c ∈ cs, c.toNat < 128) :
    (String.ofList cs).utf8ByteSize = cs.length := by
  induction cs with
  | nil => simp
  | cons c cs ih =>
    have hc : c.utf8Size = 1 :=
      Char.utf8Size_eq_one_iff.2 (UInt32.le_iff_toNat_le.2 (Nat.le_of_lt_succ (h c (by simp))))
    have hcs := ih fun d hd => h d (List.mem_cons_of_mem _ hd)
    simp [String.ofList_cons, hc, hcs, Nat.add_comm]

/-! ### Dots -/

theorem splitDotsOnto_done (done : List (List Char)) (part cs : List Char) :
    splitDotsOnto done part cs = done.reverse ++ splitDotsOnto [] part cs := by
  induction cs generalizing done part with
  | nil => simp [splitDotsOnto]
  | cons c cs ih =>
    by_cases hc : c = '.'
    · simp only [splitDotsOnto, hc, if_true]
      rw [ih (part.reverse :: done), ih [part.reverse]]
      simp
    · simp only [splitDotsOnto, hc, if_false]
      exact ih done (c :: part)

theorem splitDotsOnto_append (part cs rest : List Char) :
    splitDotsOnto [] part (cs ++ '.' :: rest) =
      splitDotsOnto [] part cs ++ splitDotsOnto [] [] rest := by
  induction cs generalizing part with
  | nil =>
    simp only [List.nil_append, splitDotsOnto, if_true]
    rw [splitDotsOnto_done]
  | cons c cs ih =>
    by_cases hc : c = '.'
    · simp only [List.cons_append, splitDotsOnto, hc, if_true]
      rw [splitDotsOnto_done, ih, splitDotsOnto_done [part.reverse] [] cs]
      simp
    · simp only [List.cons_append, splitDotsOnto, hc, if_false]
      exact ih (c :: part)

theorem splitDotsOnto_dotless {part cs : List Char} (h : '.' ∉ cs) :
    splitDotsOnto [] part cs = [part.reverse ++ cs] := by
  induction cs generalizing part with
  | nil => simp [splitDotsOnto]
  | cons c cs ih =>
    have hc : ¬ c = '.' := fun e => h (by simp [e])
    simp only [splitDotsOnto, hc, if_false]
    rw [ih (fun hm => h (List.mem_cons_of_mem _ hm))]
    simp

theorem splitDots_append (s t : String) :
    splitDots (s ++ "." ++ t) = splitDots s ++ splitDots t := by
  have hchars : (s ++ "." ++ t).toList = s.toList ++ '.' :: t.toList := by
    simp [String.toList_append]
  rw [splitDots, hchars, splitDotsOnto_append, List.map_append]
  rfl

theorem splitDots_dotless {s : String} (h : '.' ∉ s.toList) : splitDots s = [s] := by
  simp [splitDots, splitDotsOnto_dotless h]

theorem joinDots_cons_cons (s t : String) (rest : List String) :
    joinDots (s :: t :: rest) = s ++ "." ++ joinDots (t :: rest) := by
  simp [joinDots, String.intercalate_cons_cons]

theorem splitDots_joinDots {segments : List String} (hne : segments ≠ [])
    (h : ∀ s ∈ segments, '.' ∉ s.toList) : splitDots (joinDots segments) = segments := by
  induction segments with
  | nil => exact absurd rfl hne
  | cons s rest ih =>
    cases rest with
    | nil => simpa [joinDots] using splitDots_dotless (h s (by simp))
    | cons t rest =>
      have hrest := ih (by simp) (fun u hu => h u (List.mem_cons_of_mem _ hu))
      rw [joinDots_cons_cons, splitDots_append, splitDots_dotless (h s (by simp)), hrest]
      rfl

theorem splitDotsOnto_ne_nil (done : List (List Char)) (part cs : List Char) :
    splitDotsOnto done part cs ≠ [] := by
  induction cs generalizing done part with
  | nil => simp [splitDotsOnto]
  | cons c cs ih =>
    by_cases hc : c = '.'
    · simpa [splitDotsOnto, hc] using ih _ _
    · simpa [splitDotsOnto, hc] using ih _ _

/-- Nothing but the dots is lost in splitting. -/
theorem joinDots_splitDots (s : String) : joinDots (splitDots s) = s := by
  have hjoin : ∀ (cs part : List Char),
      joinDots ((splitDotsOnto [] part cs).map String.ofList) =
        String.ofList (part.reverse ++ cs) := by
    intro cs
    induction cs with
    | nil => simp [splitDotsOnto, joinDots]
    | cons c cs ih =>
      intro part
      by_cases hc : c = '.'
      · have hrest := ih []
        obtain ⟨t, rest, ht⟩ := List.exists_cons_of_ne_nil (splitDotsOnto_ne_nil [] [] cs)
        simp only [splitDotsOnto, hc, if_true]
        rw [splitDotsOnto_done]
        simp only [ht, List.map_cons] at hrest
        simp only [ht, List.reverse_singleton, List.cons_append, List.nil_append, List.map_cons,
          joinDots_cons_cons, hrest]
        simp [String.ofList_append, String.ofList_cons, String.append_assoc]
      · simpa [splitDotsOnto, hc] using ih (c :: part)
  simpa [splitDots] using hjoin s.toList []

theorem length_splitDotsOnto (done : List (List Char)) (part cs : List Char) :
    (splitDotsOnto done part cs).length = done.length + cs.count '.' + 1 := by
  induction cs generalizing done part with
  | nil => simp [splitDotsOnto]
  | cons c cs ih =>
    by_cases hc : c = '.'
    · simp only [splitDotsOnto, hc, if_true, ih, List.length_cons, List.count_cons_self]
      omega
    · simp only [splitDotsOnto, hc, if_false, ih, List.count_cons_of_ne hc]

theorem dot_notMem_of_mem_splitDotsOnto {done : List (List Char)} {part cs piece : List Char}
    (hpieces : ∀ piece ∈ part.reverse :: done, '.' ∉ piece)
    (h : piece ∈ splitDotsOnto done part cs) : '.' ∉ piece := by
  induction cs generalizing done part with
  | nil => exact hpieces piece (List.mem_reverse.1 h)
  | cons c cs ih =>
    by_cases hc : c = '.'
    · simp only [splitDotsOnto, hc, if_true] at h
      exact ih (List.forall_mem_cons.2 ⟨by simp, hpieces⟩) h
    · simp only [splitDotsOnto, hc, if_false] at h
      obtain ⟨hpart, hdone⟩ := List.forall_mem_cons.1 hpieces
      exact ih (List.forall_mem_cons.2 ⟨by simpa [Ne.symm hc] using hpart, hdone⟩) h

/-- There is one segment more than there are dots. -/
theorem length_splitDots (s : String) : (splitDots s).length = s.toList.count '.' + 1 := by
  simp [splitDots, length_splitDotsOnto]

theorem dot_notMem_of_mem_splitDots {s segment : String} (h : segment ∈ splitDots s) :
    '.' ∉ segment.toList := by
  obtain ⟨piece, hpiece, rfl⟩ := List.mem_map.1 h
  rw [String.toList_ofList]
  exact dot_notMem_of_mem_splitDotsOnto (by simp) hpiece

end TokenSeal
