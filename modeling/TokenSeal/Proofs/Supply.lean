import TokenSeal.Proofs.Draw
import TokenSeal.Supply.Registry

/-! What each change of a supply does to the items that its sources hold, to the items themselves
and to the collections over them. -/

namespace TokenSeal

variable {α : Type}

/-- What becomes of a collection when one of its sources changes. -/
def Collection.spoiled (c : Collection α) : Collection α :=
  if c.stale then c else { c with stale := true, version := c.version + 1 }

/-- What becomes of a collection when it is disposed of. -/
def Collection.closed (c : Collection α) : Collection α :=
  if c.disposed then c else { c with disposed := true, items := [] }

namespace Supply

/-! ### What is held and how it is joined -/

/-- The items of a source; of one that is disposed of, those it held last. -/
def held (s : Supply α) (id : SourceId) : List ItemId := (s.sources[id]?).elim [] (·.items)

def heldBy (s : Supply α) (members : List Membership) : List ItemId :=
  members.flatMap fun m => s.held m.source

def nameIn (s : Supply α) (f : α → String) (i : ItemId) : String := (s.items[i]?).elim "" f

/-- With a naming, all but the first item of each name that the items have in `s` are left out. -/
def joined (s : Supply α) (naming : Option (α → String)) (ids : List ItemId) : List ItemId :=
  match naming with
  | none => ids
  | some f => ids.eraseDupsBy fun i j => s.nameIn f i == s.nameIn f j

theorem firstOfEach_eq (nameOf : ItemId → String) (ids : List ItemId) :
    firstOfEach nameOf [] ids = ids.eraseDupsBy fun i j => nameOf i == nameOf j := by
  -- Between the two scans: the names seen are those of the items kept so far.
  have hloop : ∀ (ids kept : List ItemId),
      List.eraseDupsBy.loop (fun i j => nameOf i == nameOf j) ids kept =
        kept.reverse ++ firstOfEach nameOf (kept.map nameOf) ids := by
    intro ids
    induction ids with
    | nil => simp [List.eraseDupsBy.loop, firstOfEach]
    | cons i rest ih =>
      intro kept
      by_cases hseen : nameOf i ∈ kept.map nameOf
      · have hany : kept.any (fun j => nameOf i == nameOf j) = true := by
          obtain ⟨j, hj, hname⟩ := List.mem_map.1 hseen
          exact List.any_eq_true.2 ⟨j, hj, by simp [hname]⟩
        rw [List.eraseDupsBy.loop, hany, firstOfEach, if_pos hseen]
        exact ih kept
      · have hany : kept.any (fun j => nameOf i == nameOf j) = false := by
          rw [List.any_eq_false]
          intro j hj hname
          exact hseen (List.mem_map.2 ⟨j, hj, (beq_iff_eq.1 hname).symm⟩)
        rw [List.eraseDupsBy.loop, hany, firstOfEach, if_neg hseen]
        simpa using ih (i :: kept)
  simpa [List.eraseDupsBy] using (hloop ids []).symm

theorem sourceItems_eq_ok {s : Supply α} {id : SourceId} {ids : List ItemId} :
    s.sourceItems id = .ok ids ↔
      ∃ source, s.sources[id]? = some source ∧ source.disposed = false ∧ source.items = ids := by
  unfold sourceItems
  cases s.sources[id]? with
  | none => simp
  | some source => cases hd : source.disposed <;> simp [hd]

theorem mapM_sourceItems {s : Supply α} {members : List Membership} {lists : List (List ItemId)}
    (h : members.mapM (fun m => s.sourceItems m.source) = .ok lists) :
    lists.flatten = s.heldBy members ∧ ∀ m ∈ members, m.source < s.sources.length := by
  induction members generalizing lists with
  | nil =>
    cases h
    exact ⟨rfl, fun _ hm => nomatch hm⟩
  | cons m rest ih =>
    rw [List.mapM_cons] at h
    obtain ⟨ids, hids, h⟩ := bind_eq_ok.1 h
    obtain ⟨more, hmore, h⟩ := bind_eq_ok.1 h
    cases h
    obtain ⟨source, hsource, -, rfl⟩ := sourceItems_eq_ok.1 hids
    obtain ⟨hflat, hknown⟩ := ih hmore
    have hheld : s.held m.source = source.items := by simp [held, hsource]
    refine ⟨by simp [heldBy, hheld, hflat], List.forall_mem_cons.2 ⟨?_, hknown⟩⟩
    exact (List.getElem?_eq_some_iff.1 hsource).1

theorem merge_eq_ok {s : Supply α} {members : List Membership} {naming : Option (α → String)}
    {ids : List ItemId} (h : s.merge members naming = .ok ids) :
    ids = s.joined naming (s.heldBy members) ∧ ∀ m ∈ members, m.source < s.sources.length := by
  obtain ⟨lists, hlists, h⟩ := bind_eq_ok.1 h
  obtain ⟨hflat, hknown⟩ := mapM_sourceItems hlists
  refine ⟨?_, hknown⟩
  cases naming with
  | none =>
    cases h
    exact hflat
  | some f =>
    cases h
    rw [hflat]
    exact firstOfEach_eq _ _

/-! ### Changes that are told -/

section Signal

variable {s : Supply α}

theorem spoiled_spoiled (c : Collection α) : c.spoiled.spoiled = c.spoiled := by
  unfold Collection.spoiled
  split <;> simp_all

theorem items_invalidate (s : Supply α) (id : CollectionId) :
    (s.invalidate id).items = s.items := by
  unfold invalidate
  split
  · split <;> rfl
  · rfl

theorem sources_invalidate (s : Supply α) (id : CollectionId) :
    (s.invalidate id).sources = s.sources := by
  unfold invalidate
  split
  · split <;> rfl
  · rfl

theorem collections_invalidate (s : Supply α) (id i : CollectionId) :
    (s.invalidate id).collections[i]? =
      (s.collections[i]?).map fun c => if i = id then c.spoiled else c := by
  unfold invalidate
  by_cases hi : i = id
  · subst hi
    cases hc : s.collections[i]? with
    | none => simp [hc]
    | some c =>
      obtain ⟨hlt, -⟩ := List.getElem?_eq_some_iff.1 hc
      by_cases hstale : c.stale = true
      · simp [hstale, hc, Collection.spoiled]
      · simp [hstale, tell, hlt, Collection.spoiled]
  · have hother : ∀ c, (s.collections.set id c)[i]? = s.collections[i]? :=
      fun c => List.getElem?_set_ne (Ne.symm hi)
    simp only [hi, if_false, Option.map_id']
    split
    · split
      · rfl
      · exact hother _
    · rfl

theorem foldl_invalidate (s : Supply α) (ids : List CollectionId) :
    (ids.foldl invalidate s).items = s.items ∧ (ids.foldl invalidate s).sources = s.sources ∧
      ∀ i, (ids.foldl invalidate s).collections[i]? =
        (s.collections[i]?).map fun c => if i ∈ ids then c.spoiled else c := by
  induction ids generalizing s with
  | nil => simp
  | cons id rest ih =>
    obtain ⟨hitems, hsources, hcollections⟩ := ih (s.invalidate id)
    refine ⟨?_, ?_, fun i => ?_⟩
    · rw [List.foldl_cons, hitems, items_invalidate]
    · rw [List.foldl_cons, hsources, sources_invalidate]
    · rw [List.foldl_cons, hcollections, collections_invalidate, Option.map_map]
      congr 1
      funext c
      by_cases hi : i = id <;> by_cases hrest : i ∈ rest <;> simp [hi, hrest, spoiled_spoiled]

theorem mem_subscribers {id : SourceId} {i : CollectionId} {c : Collection α}
    (hc : s.collections[i]? = some c) :
    i ∈ s.subscribers id ↔ c.members.any (·.source = id) = true := by
  have hlt : i < s.collections.length := (List.getElem?_eq_some_iff.1 hc).1
  rw [subscribers, List.mem_filter, List.mem_range, hc]
  exact and_iff_right hlt

theorem held_set {id : SourceId} {source : Source} (hsource : s.sources[id]? = some source)
    (source' : Source) (hitems : source'.items = source.items) (i : SourceId) :
    held { s with sources := s.sources.set id source' } i = s.held i := by
  unfold held
  by_cases hi : id = i
  · subst hi
    have hlt : id < s.sources.length := (List.getElem?_eq_some_iff.1 hsource).1
    rw [List.getElem?_set_self hlt, hsource]
    exact hitems
  · simp [List.getElem?_set_ne hi]

theorem items_signal (s : Supply α) (id : SourceId) : (s.signal id).2.items = s.items := by
  unfold signal
  split
  · exact (foldl_invalidate _ _).1
  · rfl

theorem length_sources_signal (s : Supply α) (id : SourceId) :
    (s.signal id).2.sources.length = s.sources.length := by
  unfold signal
  split
  · rw [(foldl_invalidate _ _).2.1]
    exact List.length_set
  · rfl

theorem held_signal (s : Supply α) (id i : SourceId) : (s.signal id).2.held i = s.held i := by
  unfold signal
  split
  · next source hsource =>
    rw [held, (foldl_invalidate _ _).2.1]
    exact held_set hsource { source with version := source.version + 1 } rfl i
  · rfl

theorem collections_signal {id : SourceId} (hid : id < s.sources.length) (i : CollectionId) :
    (s.signal id).2.collections[i]? =
      (s.collections[i]?).map fun c => if c.members.any (·.source = id) then c.spoiled else c := by
  unfold signal
  rw [List.getElem?_eq_getElem hid]
  dsimp only
  rw [(foldl_invalidate _ _).2.2]
  change (s.collections[i]?).map (fun c => if i ∈ s.subscribers id then c.spoiled else c) = _
  cases hc : s.collections[i]? with
  | none => rfl
  | some c => simp only [Option.map_some, mem_subscribers hc]

end Signal

/-! ### Disposal -/

section Disposal

theorem live_or_gone (s : Supply α) (id : SourceId) :
    (∃ source, s.sources[id]? = some source ∧ source.disposed = false) ∨
      ∀ source, s.sources[id]? = some source → source.disposed = true := by
  by_cases hlive : ∃ source, s.sources[id]? = some source ∧ source.disposed = false
  · exact .inl hlive
  · refine .inr fun source hsource => ?_
    by_contra hd
    exact hlive ⟨source, hsource, by simpa using hd⟩

theorem open_or_closed (s : Supply α) (id : CollectionId) :
    (∃ c, s.collections[id]? = some c ∧ c.disposed = false) ∨
      ∀ c, s.collections[id]? = some c → c.disposed = true := by
  by_cases hlive : ∃ c, s.collections[id]? = some c ∧ c.disposed = false
  · exact .inl hlive
  · refine .inr fun c hc => ?_
    by_contra hd
    exact hlive ⟨c, hc, by simpa using hd⟩

variable [Disposable α] {s s' : Supply α}

/-- The items are the same ones, some of them disposed of since, perhaps more than once. -/
def Ages (s s' : Supply α) : Prop :=
  ∀ i : ItemId, ∃ n : Nat, s'.items[i]? = (s.items[i]?).map (Disposable.dispose^[n])

theorem Ages.of_items (h : s'.items = s.items) : s.Ages s' :=
  fun i => ⟨0, by simp [h]⟩

theorem Ages.trans {s'' : Supply α} (h : s.Ages s') (h' : s'.Ages s'') : s.Ages s'' := by
  intro i
  obtain ⟨n, hn⟩ := h i
  obtain ⟨m, hm⟩ := h' i
  refine ⟨m + n, ?_⟩
  rw [hm, hn, Option.map_map, Function.iterate_add]

theorem Ages.nameIn (h : s.Ages s') {f : α → String}
    (hf : ∀ a, f (Disposable.dispose a) = f a) (i : ItemId) : s'.nameIn f i = s.nameIn f i := by
  have hiterate : ∀ n a, f (Disposable.dispose^[n] a) = f a := by
    intro n a
    induction n with
    | zero => rfl
    | succ n ih => rw [Function.iterate_succ_apply', hf, ih]
  obtain ⟨n, hn⟩ := h i
  rw [Supply.nameIn, Supply.nameIn, hn]
  cases s.items[i]? with
  | none => rfl
  | some a => exact hiterate n a

theorem disposeItem_ages (s : Supply α) (id : ItemId) : s.Ages (s.disposeItem id) := by
  intro i
  by_cases hi : id = i
  · exact ⟨1, by simp [disposeItem, hi]⟩
  · exact ⟨0, by simp [disposeItem, hi]⟩

theorem disposeItems_ages (s : Supply α) (ids : List ItemId) : s.Ages (s.disposeItems ids) := by
  induction ids generalizing s with
  | nil => exact .of_items rfl
  | cons id rest ih => exact (s.disposeItem_ages id).trans (ih _)

theorem disposeItems_frame (s : Supply α) (ids : List ItemId) :
    (s.disposeItems ids).sources = s.sources ∧
      (s.disposeItems ids).collections = s.collections := by
  induction ids generalizing s with
  | nil => exact ⟨rfl, rfl⟩
  | cons id rest ih => exact ih (s.disposeItem id)

theorem listeners_disposeItems (s : Supply α) (ids : List ItemId) :
    (s.disposeItems ids).listeners = s.listeners := by
  induction ids generalizing s with
  | nil => rfl
  | cons id rest ih => exact ih (s.disposeItem id)

theorem disposeSource_of_live {id : SourceId} {source : Source}
    (hsource : s.sources[id]? = some source) (hlive : source.disposed = false) :
    s.disposeSource id = disposeItems
      { s with sources := s.sources.set id { source with disposed := true } }
      (if source.owns then source.items else []) := by
  unfold disposeSource
  simp only [hsource, hlive, Bool.false_eq_true, if_false]
  split <;> rfl

theorem disposeSource_of_gone {id : SourceId}
    (hgone : ∀ source, s.sources[id]? = some source → source.disposed = true) :
    s.disposeSource id = s := by
  unfold disposeSource
  split
  · next source hsource => exact if_pos (hgone source hsource)
  · rfl

/-- Items and sources may be disposed of in between, but every source holds what it held. -/
structure Sheds (s s' : Supply α) : Prop where
  length : s'.sources.length = s.sources.length
  held : ∀ i, s'.held i = s.held i
  ages : s.Ages s'

theorem Sheds.refl (s : Supply α) : s.Sheds s := ⟨rfl, fun _ => rfl, .of_items rfl⟩

theorem Sheds.trans {s'' : Supply α} (h : s.Sheds s') (h' : s'.Sheds s'') : s.Sheds s'' :=
  ⟨h'.length.trans h.length, fun i => (h'.held i).trans (h.held i), h.ages.trans h'.ages⟩

theorem disposeItems_sheds (s : Supply α) (ids : List ItemId) : s.Sheds (s.disposeItems ids) := by
  have hsources := (s.disposeItems_frame ids).1
  refine ⟨by rw [hsources], fun i => ?_, s.disposeItems_ages ids⟩
  rw [held, held, hsources]

theorem disposeSource_sheds (s : Supply α) (id : SourceId) :
    (s.disposeSource id).collections = s.collections ∧ s.Sheds (s.disposeSource id) := by
  unfold disposeSource
  split
  · next source hsource =>
    split
    · exact ⟨rfl, .refl s⟩
    · have hmarked : s.Sheds
          { s with sources := s.sources.set id { source with disposed := true } } :=
        ⟨List.length_set, held_set hsource _ rfl, .of_items rfl⟩
      split
      · exact ⟨(disposeItems_frame _ _).2, hmarked.trans (disposeItems_sheds _ _)⟩
      · exact ⟨rfl, hmarked⟩
  · exact ⟨rfl, .refl s⟩

theorem foldl_disposeSource (s : Supply α) (members : List Membership) :
    let s' := members.foldl (fun s m => s.disposeSource m.source) s
    s'.collections = s.collections ∧ s.Sheds s' := by
  induction members generalizing s with
  | nil => exact ⟨rfl, .refl s⟩
  | cons m rest ih =>
    obtain ⟨hcollections, hsheds⟩ := s.disposeSource_sheds m.source
    obtain ⟨hcollections', hsheds'⟩ := ih (s.disposeSource m.source)
    exact ⟨hcollections'.trans hcollections, hsheds.trans hsheds'⟩

theorem disposeCollection_of_closed {id : CollectionId}
    (hclosed : ∀ c, s.collections[id]? = some c → c.disposed = true) :
    s.disposeCollection id = s := by
  unfold disposeCollection
  split
  · rfl
  · next c hc => exact if_pos (hclosed c hc)

theorem disposeCollection_of_live {id : CollectionId} {c : Collection α}
    (hc : s.collections[id]? = some c) (hlive : c.disposed = false) :
    s.disposeCollection id = (c.members.filter (·.owned)).foldl
      (fun s m => s.disposeSource m.source)
        { s with collections := s.collections.set id { c with disposed := true, items := [] } } := by
  simp [disposeCollection, hc, hlive]

theorem disposeCollection_sheds (s : Supply α) (id : CollectionId) :
    s.Sheds (s.disposeCollection id) := by
  unfold disposeCollection
  split
  · exact .refl s
  · next c hc =>
    split
    · exact .refl s
    · let t := { s with collections := s.collections.set id { c with disposed := true, items := [] } }
      have hmarked : s.Sheds t := ⟨rfl, fun _ => rfl, .of_items rfl⟩
      exact hmarked.trans (t.foldl_disposeSource (c.members.filter (·.owned))).2

theorem collections_disposeCollection (s : Supply α) (id i : CollectionId) :
    (s.disposeCollection id).collections[i]? =
      (s.collections[i]?).map fun c => if i = id then c.closed else c := by
  unfold disposeCollection
  cases hc : s.collections[id]? with
  | none =>
    by_cases hi : i = id
    · rw [hi, hc]
      rfl
    · simp [hi]
  | some c =>
    by_cases hdisposed : c.disposed = true
    · have hclosed : c.closed = c := if_pos hdisposed
      by_cases hi : i = id
      · simp [hi, hc, hdisposed, hclosed]
      · simp [hi, hdisposed]
    · have hclosed : c.closed = { c with disposed := true, items := [] } := if_neg hdisposed
      have hlt : id < s.collections.length := (List.getElem?_eq_some_iff.1 hc).1
      dsimp only
      rw [if_neg hdisposed, (foldl_disposeSource _ _).1]
      by_cases hi : i = id
      · rw [hi, List.getElem?_set_self hlt, hc, Option.map_some, if_pos rfl, hclosed]
      · simp [hi, List.getElem?_set_ne (Ne.symm hi)]

theorem replace_of_live {id : SourceId} {source : Source} (hsource : s.sources[id]? = some source)
    (hlive : source.disposed = false) (items : List ItemId) :
    s.replace id items = .ok (signal (disposeItems
      { s with sources := s.sources.set id { source with items := items } }
      (if source.owns then source.items.filter (· ∉ items) else [])) id).2 := by
  unfold replace
  simp only [hsource, hlive, Bool.false_eq_true, if_false]
  split <;> rfl

theorem replace_of_gone {id : SourceId}
    (hgone : ∀ source, s.sources[id]? = some source → source.disposed = true)
    (items : List ItemId) : s.replace id items = .error (.disposed .dataSource) := by
  unfold replace
  split
  · next source hsource => exact if_pos (hgone source hsource)
  · rfl

theorem live_of_replace {id : SourceId} {items : List ItemId}
    (h : s.replace id items = .ok s') :
    ∃ source, s.sources[id]? = some source ∧ source.disposed = false := by
  obtain hlive | hgone := s.live_or_gone id
  · exact hlive
  · rw [replace_of_gone hgone] at h
    cases h

theorem replace_eq_ok {id : SourceId} {items : List ItemId} (h : s.replace id items = .ok s') :
    ∃ source t, s.sources[id]? = some source ∧
      t.sources = s.sources.set id { source with items := items } ∧
        t.collections = s.collections ∧ s.Ages t ∧ s' = (t.signal id).2 := by
  obtain ⟨source, hsource, hlive⟩ := live_of_replace h
  rw [replace_of_live hsource hlive] at h
  cases h
  have hages : s.Ages { s with sources := s.sources.set id { source with items := items } } :=
    .of_items rfl
  obtain ⟨hsources, hcollections⟩ := disposeItems_frame
    { s with sources := s.sources.set id { source with items := items } }
    (if source.owns then source.items.filter (· ∉ items) else [])
  exact ⟨source, _, hsource, hsources, hcollections, hages.trans (disposeItems_ages _ _), rfl⟩

end Disposal

/-! ### Making and reading collections -/

section Collect

variable {s s' : Supply α}

theorem collect_eq_ok {members : List Membership} {naming : Option (α → String)}
    {id : CollectionId} (h : s.collect members naming = .ok (id, s')) :
    ∃ ids, s.merge members naming = .ok ids ∧
      s' = { s with collections := s.collections ++ [{ members, naming, items := ids }] } := by
  obtain ⟨ids, hids, h⟩ := bind_eq_ok.1 h
  cases h
  exact ⟨ids, hids, rfl⟩

theorem held_addSource (s : Supply α) (items : List ItemId) (owns : Bool) (i : SourceId) :
    (s.addSource items owns).2.held i = if i = s.sources.length then items else s.held i := by
  unfold addSource held
  by_cases hi : i < s.sources.length
  · simp [List.getElem?_append_left hi, Nat.ne_of_lt hi]
  · by_cases heq : i = s.sources.length
    · simp [heq]
    · have hout : (s.sources ++ [(⟨items, owns, false, 0⟩ : Source)]).length ≤ i := by
        rw [List.length_append, List.length_singleton]
        exact Nat.lt_of_le_of_ne (Nat.not_lt.1 hi) (Ne.symm heq)
      rw [if_neg heq, List.getElem?_eq_none hout, List.getElem?_eq_none (Nat.not_lt.1 hi)]

/-- The sources that there are hold what they held. -/
def Holds (s s' : Supply α) : Prop :=
  s.sources.length ≤ s'.sources.length ∧ ∀ i < s.sources.length, s'.held i = s.held i

theorem Holds.of_sources (h : s'.sources = s.sources) : s.Holds s' :=
  ⟨Nat.le_of_eq (by rw [h]), fun i _ => by rw [held, held, h]⟩

theorem Sheds.holds [Disposable α] (h : s.Sheds s') : s.Holds s' :=
  ⟨Nat.le_of_eq h.length.symm, fun i _ => h.held i⟩

theorem holds_addSource (s : Supply α) (items : List ItemId) (owns : Bool) :
    s.Holds (s.addSource items owns).2 := by
  refine ⟨by simp [addSource], fun i hi => ?_⟩
  rw [held_addSource, if_neg (Nat.ne_of_lt hi)]

theorem read_cases (s : Supply α) (id : CollectionId) :
    (s.read id).2 = s ∨ ∃ c ids, s.collections[id]? = some c ∧ c.disposed = false ∧
      s.merge c.members c.naming = .ok ids ∧ (s.read id).2 = { s with
        collections := s.collections.set id
          { c with items := ids, stale := false, rebuilds := c.rebuilds + 1 } } := by
  unfold read
  cases hc : s.collections[id]? with
  | none => exact .inl rfl
  | some c =>
    cases hd : c.disposed with
    | true => exact .inl (by simp [hd])
    | false =>
      cases hs : c.stale with
      | false => exact .inl (by simp [hd, hs])
      | true =>
        cases hmerge : s.merge c.members c.naming with
        | error e => exact .inl (by simp [hd, hs, hmerge])
        | ok ids => exact .inr ⟨c, ids, rfl, hd, hmerge, by simp [hd, hs, hmerge]⟩

theorem read_of_error {id : CollectionId} {e : Fault} (h : (s.read id).1 = .error e) :
    (s.read id).2 = s := by
  obtain hsame | ⟨c, ids, hc, hlive, hmerge, -⟩ := s.read_cases id
  · exact hsame
  · cases hstale : c.stale <;> simp [read, hc, hlive, hstale, hmerge] at h ⊢

theorem read_frame (s : Supply α) (id : CollectionId) :
    (s.read id).2.items = s.items ∧ (s.read id).2.sources = s.sources := by
  obtain hsame | ⟨c, ids, -, -, -, hread⟩ := s.read_cases id
  · rw [hsame]
    exact ⟨rfl, rfl⟩
  · rw [hread]
    exact ⟨rfl, rfl⟩

/-- What is read is what the collection has afterwards, and then it is not stale. -/
theorem read_eq_ok {id : CollectionId} {ids : List ItemId} (h : (s.read id).1 = .ok ids) :
    ∃ c, (s.read id).2.collections[id]? = some c ∧ c.items = ids ∧ c.stale = false ∧
      c.disposed = false := by
  unfold read at h ⊢
  cases hc : s.collections[id]? with
  | none => simp [hc] at h
  | some c =>
    have hlt : id < s.collections.length := (List.getElem?_eq_some_iff.1 hc).1
    cases hd : c.disposed with
    | true => simp [hc, hd] at h
    | false =>
      cases hs : c.stale with
      | false =>
        have hids : c.items = ids := by simpa [hc, hd, hs] using h
        exact ⟨c, by simp [hd, hs, hc], hids, hs, hd⟩
      | true =>
        cases hmerge : s.merge c.members c.naming with
        | error e => simp [hc, hd, hs, hmerge] at h
        | ok ids' =>
          have hids : ids' = ids := by simpa [hc, hd, hs, hmerge] using h
          refine ⟨{ c with items := ids', stale := false, rebuilds := c.rebuilds + 1 }, ?_, hids, rfl,
            hd⟩
          simp [hd, hs, hmerge, hlt]

end Collect

/-! ### Runs -/

/-- What is done with a supply. What fails changes nothing. -/
inductive Action (α : Type) where
  | addSource (items : List ItemId) (owns : Bool)
  | addListener (subject : Subject)
  | collect (members : List Membership) (naming : Option (α → String))
  | collectItems (items : List ItemId) (owns : Bool)
  | replace (id : SourceId) (items : List ItemId)
  | signal (id : SourceId)
  | read (id : CollectionId)
  | disposeItem (id : ItemId)
  | disposeSource (id : SourceId)
  | disposeCollection (id : CollectionId)

section Run

variable [Disposable α] {s s' : Supply α}

def perform (s : Supply α) : Action α → Supply α
  | .addSource items owns => (s.addSource items owns).2
  | .addListener subject => (s.addListener subject).2
  | .collect members naming =>
    match s.collect members naming with
    | .ok (_, s') => s'
    | .error _ => s
  | .collectItems items owns => (s.collectItems items owns).2
  | .replace id items =>
    match s.replace id items with
    | .ok s' => s'
    | .error _ => s
  | .signal id => (s.signal id).2
  | .read id => (s.read id).2
  | .disposeItem id => s.disposeItem id
  | .disposeSource id => s.disposeSource id
  | .disposeCollection id => s.disposeCollection id

/-- A supply of these items, without sources at first, after these actions. -/
def run (items : List α) (actions : List (Action α)) : Supply α :=
  actions.foldl perform { items := items }

theorem run_append (items : List α) (actions : List (Action α)) (a : Action α) :
    run items (actions ++ [a]) = (run items actions).perform a := by
  rw [run, List.foldl_append]
  rfl

theorem perform_collect_cases (s : Supply α) (members : List Membership)
    (naming : Option (α → String)) :
    s.perform (.collect members naming) = s ∨ ∃ ids, s.merge members naming = .ok ids ∧
      s.perform (.collect members naming) =
        { s with collections := s.collections ++ [{ members, naming, items := ids }] } := by
  cases hcollect : s.collect members naming with
  | error e => exact .inl (by simp [perform, hcollect])
  | ok made =>
    obtain ⟨id, s'⟩ := made
    obtain ⟨ids, hmerge, hs'⟩ := collect_eq_ok hcollect
    exact .inr ⟨ids, hmerge, by simp [perform, hcollect, hs']⟩

/-- All that an action may do to the collections and to what the sources hold. -/
inductive Effect (s s' : Supply α) : Prop where
  | quiet (collections : s'.collections = s.collections) (holds : s.Holds s') (ages : s.Ages s')
  | made (c : Collection α) (collections : s'.collections = s.collections ++ [c])
      (holds : s.Holds s') (items : s'.items = s.items)
      (joins : c.items = s'.joined c.naming (s'.heldBy c.members))
      (known : ∀ m ∈ c.members, m.source < s'.sources.length)
  | rebuilt (id : CollectionId) (c : Collection α) (ids : List ItemId)
      (found : s.collections[id]? = some c)
      (joins : ids = s.joined c.naming (s.heldBy c.members))
      (known : ∀ m ∈ c.members, m.source < s.sources.length)
      (result : s' = { s with
        collections := s.collections.set id
          { c with items := ids, stale := false, rebuilds := c.rebuilds + 1 } })
  | told (id : SourceId) (length : s'.sources.length = s.sources.length)
      (held : ∀ i, i ≠ id → s'.held i = s.held i) (ages : s.Ages s')
      (collections : ∀ i : CollectionId, s'.collections[i]? =
        (s.collections[i]?).map fun c => if c.members.any (·.source = id) then c.spoiled else c)
  | closed (id : CollectionId) (holds : s.Holds s') (ages : s.Ages s')
      (collections : ∀ i : CollectionId, s'.collections[i]? =
        (s.collections[i]?).map fun c => if i = id then c.closed else c)

theorem Effect.idle (s : Supply α) : s.Effect s := .quiet rfl (.of_sources rfl) (.of_items rfl)

theorem perform_effect (s : Supply α) (a : Action α) : s.Effect (s.perform a) := by
  cases a with
  | addSource items owns => exact .quiet rfl (s.holds_addSource items owns) (.of_items rfl)
  | addListener subject => exact .quiet rfl (.of_sources rfl) (.of_items rfl)
  | collect members naming =>
    obtain hsame | ⟨ids, hmerge, hmade⟩ := s.perform_collect_cases members naming
    · rw [hsame]
      exact .idle s
    · obtain ⟨hjoins, hknown⟩ := merge_eq_ok hmerge
      rw [hmade]
      exact .made _ rfl (.of_sources rfl) rfl hjoins hknown
  | collectItems items owns =>
    refine .made { members := [⟨s.sources.length, true⟩], naming := .none, items := items } rfl
      (s.holds_addSource items owns) rfl ?_ ?_
    · have hheld : (s.collectItems items owns).2.held s.sources.length = items :=
        (s.held_addSource items owns s.sources.length).trans (if_pos rfl)
      simp [joined, heldBy, perform, hheld]
    · intro m hm
      rw [List.mem_singleton.1 hm]
      simp [perform, collectItems, addSource]
  | replace id items =>
    cases hreplace : s.replace id items with
    | error e => simpa [perform, hreplace] using Effect.idle s
    | ok s' =>
      obtain ⟨source, t, hsource, hsources, hcollections, hages, hs'⟩ := replace_eq_ok hreplace
      have hperform : s.perform (.replace id items) = s' := by simp [perform, hreplace]
      have hlength : t.sources.length = s.sources.length := by rw [hsources, List.length_set]
      have hid : id < t.sources.length :=
        hlength ▸ (List.getElem?_eq_some_iff.1 hsource).1
      rw [hperform, hs']
      refine .told id ?_ (fun i hi => ?_) (hages.trans (.of_items (items_signal t id))) fun i => ?_
      · rw [length_sources_signal, hlength]
      · rw [held_signal, held, held, hsources, List.getElem?_set_ne (Ne.symm hi)]
      · rw [collections_signal hid, hcollections]
  | signal id =>
    by_cases hid : id < s.sources.length
    · exact .told id (s.length_sources_signal id) (fun i _ => s.held_signal id i)
        (.of_items (s.items_signal id)) (collections_signal hid)
    · have hsame : (s.signal id).2 = s := by
        simp [Supply.signal, List.getElem?_eq_none (Nat.not_lt.1 hid)]
      rw [perform, hsame]
      exact .idle s
  | read id =>
    obtain hsame | ⟨c, ids, hc, -, hmerge, hread⟩ := s.read_cases id
    · rw [perform, hsame]
      exact .idle s
    · obtain ⟨hjoins, hknown⟩ := merge_eq_ok hmerge
      exact .rebuilt id c ids hc hjoins hknown hread
  | disposeItem id => exact .quiet rfl (.of_sources rfl) (s.disposeItem_ages id)
  | disposeSource id =>
    obtain ⟨hcollections, hsheds⟩ := s.disposeSource_sheds id
    exact .quiet hcollections hsheds.holds hsheds.ages
  | disposeCollection id =>
    have hsheds := s.disposeCollection_sheds id
    exact .closed id hsheds.holds hsheds.ages (s.collections_disposeCollection id)

/-- Only a replacement changes what a source holds. -/
theorem held_perform {id : SourceId} {a : Action α} (hid : id < s.sources.length)
    (ha : ∀ items, a ≠ .replace id items) : (s.perform a).held id = s.held id := by
  cases a with
  | addSource items owns => exact (s.holds_addSource items owns).2 id hid
  | addListener subject => rfl
  | collect members naming =>
    obtain hsame | ⟨ids, -, hmade⟩ := s.perform_collect_cases members naming
    · rw [hsame]
    · rw [hmade]
      rfl
  | collectItems items owns => exact (s.holds_addSource items owns).2 id hid
  | replace i items =>
    have hother : id ≠ i := fun h => ha items (h ▸ rfl)
    cases hreplace : s.replace i items with
    | error e => simp [perform, hreplace]
    | ok s' =>
      obtain ⟨source, t, -, hsources, -, -, hs'⟩ := replace_eq_ok hreplace
      have hperform : s.perform (.replace i items) = s' := by simp [perform, hreplace]
      rw [hperform, hs', held_signal, held, held, hsources, List.getElem?_set_ne hother.symm]
  | signal i => exact s.held_signal i id
  | read i => rw [perform, held, held, (s.read_frame i).2]
  | disposeItem i => rfl
  | disposeSource i => exact (s.disposeSource_sheds i).2.held id
  | disposeCollection i => exact (s.disposeCollection_sheds i).held id

theorem Effect.ages (h : s.Effect s') : s.Ages s' := by
  cases h with
  | quiet _ _ ages => exact ages
  | made _ _ _ items _ _ => exact .of_items items
  | rebuilt _ _ _ _ _ _ result => exact .of_items (by rw [result])
  | told _ _ _ ages _ => exact ages
  | closed _ _ ages _ => exact ages

theorem foldl_perform_ages (s : Supply α) (actions : List (Action α)) :
    s.Ages (actions.foldl perform s) := by
  induction actions generalizing s with
  | nil => exact .of_items rfl
  | cons a rest ih => exact (s.perform_effect a).ages.trans (ih _)

end Run

end Supply

end TokenSeal
