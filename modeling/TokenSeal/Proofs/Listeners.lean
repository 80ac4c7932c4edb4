import TokenSeal.Proofs.Supply

/-! Who is told of changes. Versions only grow, and a listener is told every version that its subject
takes after the listener came, each once and in order. -/

namespace TokenSeal.Supply

variable {α : Type}

/-- How many changes have been counted. What is not there has not changed. -/
def versionOf (s : Supply α) : Subject → Nat
  | .source id => (s.sources[id]?).elim 0 (·.version)
  | .collection id => (s.collections[id]?).elim 0 (·.version)

/-- The versions after `v` up to `w`, the latest first. -/
def versionsSince (v w : Nat) : List Nat := (List.range' (v + 1) (w - v)).reverse

@[simp]
theorem versionsSince_self (v : Nat) : versionsSince v v = [] := by
  simp [versionsSince]

@[simp]
theorem versionsSince_succ (v : Nat) : versionsSince v (v + 1) = [v + 1] := by
  simp [versionsSince]

theorem versionsSince_append {u v w : Nat} (huv : u ≤ v) (hvw : v ≤ w) :
    versionsSince v w ++ versionsSince u v = versionsSince u w := by
  have hsplit := List.range'_append_1 (s := u + 1) (m := v - u) (n := w - v)
  have hstart : u + 1 + (v - u) = v + 1 := by omega
  have hcount : v - u + (w - v) = w - u := by omega
  rw [hstart, hcount] at hsplit
  rw [versionsSince, versionsSince, versionsSince, ← hsplit, List.reverse_append]

/-- Each listener of before has been told the versions that its subject has taken since. -/
structure Hears (s s' : Supply α) : Prop where
  version_le : ∀ subject, s.versionOf subject ≤ s'.versionOf subject
  told : ∀ (n : Nat) (l : Listener), s.listeners[n]? = some l → s'.listeners[n]? = some
    { l with heard := versionsSince (s.versionOf l.subject) (s'.versionOf l.subject) ++ l.heard }

section Hears

variable {s s' s'' : Supply α}

theorem Hears.trans (h : s.Hears s') (h' : s'.Hears s'') : s.Hears s'' := by
  refine ⟨fun subject => (h.version_le subject).trans (h'.version_le subject), fun n l hl => ?_⟩
  rw [h'.told n _ (h.told n l hl), ← List.append_assoc,
    versionsSince_append (h.version_le l.subject) (h'.version_le l.subject)]

theorem Hears.of_quiet (hversion : ∀ subject, s'.versionOf subject = s.versionOf subject)
    (hlisteners : ∀ (n : Nat) l, s.listeners[n]? = some l → s'.listeners[n]? = some l) :
    s.Hears s' :=
  ⟨fun subject => (hversion subject).ge, fun n l hl => by simp [hversion, hlisteners n l hl]⟩

theorem Hears.refl (s : Supply α) : s.Hears s := .of_quiet (fun _ => rfl) fun _ _ hl => hl

theorem versionOf_tell (s : Supply α) (subject : Subject) (v : Nat) :
    (s.tell subject v).versionOf = s.versionOf := rfl

theorem Hears.of_told {subject : Subject} {v : Nat} (hlisteners : s'.listeners = s.listeners)
    (hbefore : s.versionOf subject = v) (hafter : s'.versionOf subject = v + 1)
    (hother : ∀ other, other ≠ subject → s'.versionOf other = s.versionOf other) :
    s.Hears (s'.tell subject (v + 1)) := by
  refine ⟨fun other => ?_, fun n l hl => ?_⟩
  · rw [versionOf_tell]
    by_cases hsame : other = subject
    · rw [hsame, hbefore, hafter]
      exact Nat.le_succ v
    · exact (hother other hsame).ge
  · rw [versionOf_tell, tell, List.getElem?_map, hlisteners, hl, Option.map_some]
    by_cases hsame : l.subject = subject
    · rw [if_pos hsame, hsame, hbefore, hafter, versionsSince_succ, List.singleton_append]
    · rw [if_neg hsame, hother _ hsame, versionsSince_self, List.nil_append]

theorem versionOf_set_source {id : SourceId} {source source' : Source}
    (hsource : s.sources[id]? = some source) (subject : Subject) :
    versionOf { s with sources := s.sources.set id source' } subject =
      if subject = .source id then source'.version else s.versionOf subject := by
  have hlt : id < s.sources.length := (List.getElem?_eq_some_iff.1 hsource).1
  cases subject with
  | collection i => rfl
  | source i =>
    by_cases hi : i = id
    · simp [versionOf, hi, List.getElem?_set_self hlt]
    · simp [versionOf, hi, List.getElem?_set_ne (Ne.symm hi)]

theorem versionOf_set_collection {id : CollectionId} {c c' : Collection α}
    (hc : s.collections[id]? = some c) (subject : Subject) :
    versionOf { s with collections := s.collections.set id c' } subject =
      if subject = .collection id then c'.version else s.versionOf subject := by
  have hlt : id < s.collections.length := (List.getElem?_eq_some_iff.1 hc).1
  cases subject with
  | source i => rfl
  | collection i =>
    by_cases hi : i = id
    · simp [versionOf, hi, List.getElem?_set_self hlt]
    · simp [versionOf, hi, List.getElem?_set_ne (Ne.symm hi)]

theorem set_source_hears {id : SourceId} {source source' : Source}
    (hsource : s.sources[id]? = some source) (hversion : source'.version = source.version) :
    s.Hears { s with sources := s.sources.set id source' } := by
  refine .of_quiet (fun subject => ?_) fun n l hl => hl
  rw [versionOf_set_source hsource]
  split
  · next hsubject => simp [hsubject, versionOf, hsource, hversion]
  · rfl

theorem set_collection_hears {id : CollectionId} {c c' : Collection α}
    (hc : s.collections[id]? = some c) (hversion : c'.version = c.version) :
    s.Hears { s with collections := s.collections.set id c' } := by
  refine .of_quiet (fun subject => ?_) fun n l hl => hl
  rw [versionOf_set_collection hc]
  split
  · next hsubject => simp [hsubject, versionOf, hc, hversion]
  · rfl

/-- What comes last has no version yet, as if it were not there. -/
theorem elim_append_singleton {β : Type} (xs : List β) (x : β) {version : β → Nat}
    (hx : version x = 0) (i : Nat) :
    ((xs ++ [x])[i]?).elim 0 version = (xs[i]?).elim 0 version := by
  rcases Nat.lt_trichotomy i xs.length with hlt | heq | hgt
  · rw [List.getElem?_append_left hlt]
  · simp [heq, hx]
  · have hout : (xs ++ [x]).length ≤ i := by simpa using hgt
    rw [List.getElem?_eq_none hout, List.getElem?_eq_none hgt.le]

theorem addSource_hears (s : Supply α) (items : List ItemId) (owns : Bool) :
    s.Hears (s.addSource items owns).2 := by
  refine .of_quiet (fun subject => ?_) fun n l hl => hl
  cases subject with
  | source id => exact elim_append_singleton s.sources _ rfl id
  | collection id => rfl

theorem append_collection_hears (s : Supply α) {c : Collection α} (hc : c.version = 0) :
    s.Hears { s with collections := s.collections ++ [c] } := by
  refine .of_quiet (fun subject => ?_) fun n l hl => hl
  cases subject with
  | source id => rfl
  | collection id => exact elim_append_singleton s.collections c hc id

theorem invalidate_hears (s : Supply α) (id : CollectionId) : s.Hears (s.invalidate id) := by
  unfold invalidate
  split
  · next c hc =>
    have hversion : s.versionOf (.collection id) = c.version := by simp [versionOf, hc]
    split
    · exact .refl s
    · refine .of_told rfl hversion ?_ fun other hother => ?_
      · rw [versionOf_set_collection hc, if_pos rfl]
      · rw [versionOf_set_collection hc, if_neg hother]
  · exact .refl s

theorem foldl_invalidate_hears (s : Supply α) (ids : List CollectionId) :
    s.Hears (ids.foldl invalidate s) := by
  induction ids generalizing s with
  | nil => exact .refl s
  | cons id rest ih => exact (s.invalidate_hears id).trans (ih _)

theorem signal_hears (s : Supply α) (id : SourceId) : s.Hears (s.signal id).2 := by
  unfold signal
  split
  · next source hsource =>
    have hversion : s.versionOf (.source id) = source.version := by simp [versionOf, hsource]
    refine Hears.trans ?_ (foldl_invalidate_hears _ _)
    refine .of_told rfl hversion ?_ fun other hother => ?_
    · rw [versionOf_set_source hsource, if_pos rfl]
    · rw [versionOf_set_source hsource, if_neg hother]
  · exact .refl s

section Disposal

variable [Disposable α]

theorem disposeItems_hears (s : Supply α) (ids : List ItemId) : s.Hears (s.disposeItems ids) := by
  obtain ⟨hsources, hcollections⟩ := s.disposeItems_frame ids
  refine .of_quiet (fun subject => ?_) fun n l hl => ?_
  · cases subject with
    | source id => rw [versionOf, versionOf, hsources]
    | collection id => rw [versionOf, versionOf, hcollections]
  · rw [listeners_disposeItems, hl]

theorem disposeSource_hears (s : Supply α) (id : SourceId) : s.Hears (s.disposeSource id) := by
  obtain ⟨source, hsource, hlive⟩ | hgone := s.live_or_gone id
  · rw [disposeSource_of_live hsource hlive]
    refine Hears.trans (set_source_hears hsource ?_) (disposeItems_hears _ _)
    rfl
  · rw [disposeSource_of_gone hgone]
    exact .refl s

theorem foldl_disposeSource_hears (s : Supply α) (members : List Membership) :
    s.Hears (members.foldl (fun s m => s.disposeSource m.source) s) := by
  induction members generalizing s with
  | nil => exact .refl s
  | cons m rest ih => exact (s.disposeSource_hears m.source).trans (ih _)

theorem disposeCollection_hears (s : Supply α) (id : CollectionId) :
    s.Hears (s.disposeCollection id) := by
  unfold disposeCollection
  split
  · exact .refl s
  · next c hc =>
    split
    · exact .refl s
    · refine Hears.trans (set_collection_hears hc ?_) (foldl_disposeSource_hears _ _)
      rfl

theorem perform_hears (s : Supply α) (a : Action α) : s.Hears (s.perform a) := by
  cases a with
  | addSource items owns => exact s.addSource_hears items owns
  | addListener subject =>
    refine .of_quiet (fun _ => rfl) fun n l hl => ?_
    have hlt : n < s.listeners.length := (List.getElem?_eq_some_iff.1 hl).1
    exact (List.getElem?_append_left hlt).trans hl
  | collect members naming =>
    obtain hsame | ⟨ids, -, hmade⟩ := s.perform_collect_cases members naming
    · rw [hsame]
      exact .refl s
    · rw [hmade]
      exact s.append_collection_hears rfl
  | collectItems items owns =>
    exact (s.addSource_hears items owns).trans (append_collection_hears _ rfl)
  | replace id items =>
    cases hreplace : s.replace id items with
    | error e => simpa [perform, hreplace] using Hears.refl s
    | ok s' =>
      obtain ⟨source, hsource, hlive⟩ := live_of_replace hreplace
      have hperform : s.perform (.replace id items) = s' := by simp [perform, hreplace]
      rw [replace_of_live hsource hlive, Except.ok.injEq] at hreplace
      rw [hperform, ← hreplace]
      refine (set_source_hears hsource ?_).trans ((disposeItems_hears _ _).trans (signal_hears _ _))
      rfl
  | signal id => exact s.signal_hears id
  | read id =>
    obtain hsame | ⟨c, ids, hc, -, -, hread⟩ := s.read_cases id
    · rw [perform, hsame]
      exact .refl s
    · rw [perform, hread]
      refine set_collection_hears hc ?_
      rfl
  | disposeItem id => exact s.disposeItems_hears [id]
  | disposeSource id => exact s.disposeSource_hears id
  | disposeCollection id => exact s.disposeCollection_hears id

theorem foldl_perform_hears (s : Supply α) (actions : List (Action α)) :
    s.Hears (actions.foldl perform s) := by
  induction actions generalizing s with
  | nil => exact .refl s
  | cons a rest ih => exact (s.perform_hears a).trans (ih _)

/-- A listener has heard the versions since it came, and nothing else. -/
theorem heard_of_foldl (s : Supply α) (subject : Subject) (later : List (Action α)) :
    (later.foldl perform (s.perform (.addListener subject))).listeners[s.listeners.length]? =
      some ⟨subject, versionsSince (s.versionOf subject)
        ((later.foldl perform (s.perform (.addListener subject))).versionOf subject)⟩ := by
  have hfirst : (s.perform (.addListener subject)).listeners[s.listeners.length]? =
      some ⟨subject, []⟩ := by simp [perform, addListener]
  have htold := (foldl_perform_hears (s.perform (.addListener subject)) later).told _ _ hfirst
  rw [htold, List.append_nil]
  rfl

end Disposal

end Hears

end TokenSeal.Supply
