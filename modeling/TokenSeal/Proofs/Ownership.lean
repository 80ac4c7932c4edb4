import TokenSeal.Proofs.CollectionReads

/-! Which items are disposed of: those that were disposed of directly, and those that an owning source
held when it was disposed of or when it was given items without them. A collection disposes of the
sources that it owns, and of no item by itself. -/

namespace TokenSeal.Supply

variable {α : Type}

/-- An owning source that is not disposed of holds the item. -/
def InCare (s : Supply α) (id : SourceId) (i : ItemId) : Prop :=
  ∃ source, s.sources[id]? = some source ∧ source.disposed = false ∧ source.owns = true ∧
    i ∈ source.items

/-- The actions that dispose of an item. -/
inductive Releases (s : Supply α) (i : ItemId) : Action α → Prop where
  | direct : Releases s i (.disposeItem i)
  | dropped {id : SourceId} {items : List ItemId} (care : s.InCare id i) (absent : i ∉ items) :
      Releases s i (.replace id items)
  | source {id : SourceId} (care : s.InCare id i) : Releases s i (.disposeSource id)
  | collection {id : CollectionId} {c : Collection α} {m : Membership}
      (found : s.collections[id]? = some c) (live : c.disposed = false) (member : m ∈ c.members)
      (owned : m.owned = true) (care : s.InCare m.source i) : Releases s i (.disposeCollection id)

/-- One of the actions disposed of the item when its turn came. -/
def Released [Disposable α] (items : List α) (actions : List (Action α)) (i : ItemId) : Prop :=
  ∃ before a after, actions = before ++ a :: after ∧ (run items before).Releases i a

/-! ### Exactly these items -/

section Takes

variable {s s' s'' : Supply α} {which which' : ItemId → Prop}

theorem inCare_iff {id : SourceId} {source : Source} (hsource : s.sources[id]? = some source)
    (hlive : source.disposed = false) (i : ItemId) :
    s.InCare id i ↔ i ∈ if source.owns then source.items else [] := by
  constructor
  · rintro ⟨source', hsource', -, howns, hi⟩
    obtain rfl : source = source' := Option.some.inj (hsource.symm.trans hsource')
    simpa [howns] using hi
  · intro hi
    cases howns : source.owns with
    | false => simp [howns] at hi
    | true => exact ⟨source, hsource, hlive, howns, by simpa [howns] using hi⟩

theorem not_inCare_of_unowning {id : SourceId} {source : Source}
    (hsource : s.sources[id]? = some source) (howns : source.owns = false) (i : ItemId) :
    ¬ s.InCare id i := by
  rintro ⟨source', hsource', -, howns', -⟩
  rw [hsource, Option.some.injEq] at hsource'
  simp [← hsource', howns] at howns'

theorem not_inCare_of_gone {id : SourceId}
    (hgone : ∀ source, s.sources[id]? = some source → source.disposed = true) (i : ItemId) :
    ¬ s.InCare id i := by
  rintro ⟨source, hsource, hlive, -⟩
  simp [hgone source hsource] at hlive

theorem releases_disposeCollection {id : CollectionId} {i : ItemId} :
    s.Releases i (.disposeCollection id) ↔ ∃ c, s.collections[id]? = some c ∧ c.disposed = false ∧
      ∃ m ∈ c.members.filter (·.owned), s.InCare m.source i := by
  constructor
  · rintro (_ | _ | _ | ⟨found, live, member, owned, care⟩)
    exact ⟨_, found, live, _, List.mem_filter.2 ⟨member, owned⟩, care⟩
  · rintro ⟨c, found, live, m, hm, care⟩
    obtain ⟨member, owned⟩ := List.mem_filter.1 hm
    exact .collection found live member owned care

variable [Disposable α]

/-- Exactly the items with the property are disposed of, perhaps more than once. -/
structure Takes (s s' : Supply α) (which : ItemId → Prop) : Prop where
  taken : ∀ i, which i → ∃ n : Nat, s'.items[i]? = (s.items[i]?).map (Disposable.dispose^[n + 1])
  spared : ∀ i, ¬ which i → s'.items[i]? = s.items[i]?

theorem Takes.of_items (h : s'.items = s.items) : s.Takes s' fun _ => False :=
  ⟨fun _ hi => hi.elim, fun _ _ => by rw [h]⟩

theorem Takes.congr (h : s.Takes s' which) (hwhich : ∀ i, which i ↔ which' i) :
    s.Takes s' which' :=
  ⟨fun i hi => h.taken i ((hwhich i).2 hi), fun i hi => h.spared i fun hold => hi ((hwhich i).1 hold)⟩

theorem Takes.items_eq (h : s.Takes s' which) (hnone : ∀ i, ¬ which i) : s'.items = s.items :=
  List.ext_getElem? fun i => h.spared i (hnone i)

theorem Takes.trans (h : s.Takes s' which) (h' : s'.Takes s'' which') :
    s.Takes s'' fun i => which i ∨ which' i := by
  refine ⟨fun i hi => ?_, fun i hi => ?_⟩
  · by_cases hfirst : which i
    · obtain ⟨n, hn⟩ := h.taken i hfirst
      by_cases hsecond : which' i
      · obtain ⟨m, hm⟩ := h'.taken i hsecond
        refine ⟨m + 1 + n, ?_⟩
        rw [hm, hn, Option.map_map, ← Function.iterate_add, Nat.add_assoc (m + 1) n 1]
      · exact ⟨n, by rw [h'.spared i hsecond, hn]⟩
    · rw [← h.spared i hfirst]
      exact h'.taken i (hi.resolve_left hfirst)
  · rw [h'.spared i fun hsecond => hi (.inr hsecond), h.spared i fun hfirst => hi (.inl hfirst)]

theorem disposeItem_takes (s : Supply α) (id : ItemId) : s.Takes (s.disposeItem id) (· = id) := by
  refine ⟨fun i hi => ⟨0, by simp [disposeItem, hi]⟩, fun i hi => ?_⟩
  simp [disposeItem, Ne.symm hi]

theorem disposeItems_takes (s : Supply α) (ids : List ItemId) :
    s.Takes (s.disposeItems ids) (· ∈ ids) := by
  induction ids generalizing s with
  | nil => exact (Takes.of_items rfl).congr fun i => by simp
  | cons id rest ih =>
    exact ((s.disposeItem_takes id).trans (ih (s.disposeItem id))).congr fun i => by simp

theorem sources_disposeSource (s : Supply α) (id j : SourceId) :
    (s.disposeSource id).sources[j]? =
      (s.sources[j]?).map fun source => if j = id then { source with disposed := true } else source := by
  obtain ⟨source, hsource, hlive⟩ | hgone := s.live_or_gone id
  · have hlt : id < s.sources.length := (List.getElem?_eq_some_iff.1 hsource).1
    rw [disposeSource_of_live hsource hlive, (disposeItems_frame _ _).1]
    by_cases hj : j = id
    · rw [hj, List.getElem?_set_self hlt, hsource, Option.map_some, if_pos rfl]
    · simp [hj, List.getElem?_set_ne (Ne.symm hj)]
  · rw [disposeSource_of_gone hgone]
    cases hj : s.sources[j]? with
    | none => rfl
    | some source =>
      by_cases hid : j = id
      · have hd := hgone source (hid ▸ hj)
        simp [hid, ← hd]
      · simp [hid]

theorem disposeSource_takes (s : Supply α) (id : SourceId) :
    s.Takes (s.disposeSource id) (s.InCare id) := by
  obtain ⟨source, hsource, hlive⟩ | hgone := s.live_or_gone id
  · rw [disposeSource_of_live hsource hlive]
    have hmarked : s.Takes { s with sources := s.sources.set id { source with disposed := true } }
        fun _ => False := .of_items rfl
    refine (hmarked.trans (disposeItems_takes _ _)).congr fun i => ?_
    rw [inCare_iff hsource hlive, false_or]
  · rw [disposeSource_of_gone hgone]
    exact (Takes.of_items rfl).congr fun i => ⟨fun hi => hi.elim, not_inCare_of_gone hgone i⟩

theorem inCare_disposeSource (s : Supply α) (id j : SourceId) (i : ItemId) :
    (s.disposeSource id).InCare j i ↔ j ≠ id ∧ s.InCare j i := by
  unfold InCare
  rw [sources_disposeSource]
  by_cases hj : j = id
  · simp [hj]
  · simp [hj]

theorem foldl_disposeSource_takes (s : Supply α) (members : List Membership) :
    s.Takes (members.foldl (fun s m => s.disposeSource m.source) s) fun i =>
      ∃ m ∈ members, s.InCare m.source i := by
  induction members generalizing s with
  | nil => exact (Takes.of_items rfl).congr fun i => by simp
  | cons m rest ih =>
    refine ((s.disposeSource_takes m.source).trans (ih _)).congr fun i => ?_
    simp only [inCare_disposeSource, List.exists_mem_cons_iff]
    constructor
    · rintro (hm | ⟨m', hm', -, hcare⟩)
      · exact .inl hm
      · exact .inr ⟨m', hm', hcare⟩
    · rintro (hm | ⟨m', hm', hcare⟩)
      · exact .inl hm
      -- A source that comes again is disposed of by then, but it was `m.source` that disposed of it.
      · by_cases hsame : m'.source = m.source
        · exact .inl (hsame ▸ hcare)
        · exact .inr ⟨m', hm', hsame, hcare⟩

theorem disposeCollection_takes (s : Supply α) (id : CollectionId) :
    s.Takes (s.disposeCollection id) fun i => s.Releases i (.disposeCollection id) := by
  obtain ⟨c, hc, hlive⟩ | hclosed := s.open_or_closed id
  · let t := { s with collections := s.collections.set id { c with disposed := true, items := [] } }
    have hmarked : s.Takes t fun _ => False := .of_items rfl
    rw [disposeCollection_of_live hc hlive]
    refine (hmarked.trans (t.foldl_disposeSource_takes (c.members.filter (·.owned)))).congr
      fun i => ?_
    rw [releases_disposeCollection, false_or]
    constructor
    · rintro ⟨m, hm, hcare⟩
      exact ⟨c, hc, hlive, m, hm, hcare⟩
    · rintro ⟨c', hc', -, m, hm, hcare⟩
      obtain rfl : c = c' := Option.some.inj (hc.symm.trans hc')
      exact ⟨m, hm, hcare⟩
  · rw [disposeCollection_of_closed hclosed]
    refine (Takes.of_items rfl).congr fun i => ⟨fun hi => hi.elim, fun hi => ?_⟩
    obtain ⟨c, hc, hlive, -⟩ := releases_disposeCollection.1 hi
    simp [hclosed c hc] at hlive

theorem perform_replace_takes (s : Supply α) (id : SourceId) (items : List ItemId) :
    s.Takes (s.perform (.replace id items)) fun i => s.Releases i (.replace id items) := by
  have hreleases : ∀ i, s.Releases i (.replace id items) ↔ s.InCare id i ∧ i ∉ items := by
    intro i
    constructor
    · rintro (_ | ⟨care, absent⟩)
      exact ⟨care, absent⟩
    · rintro ⟨care, absent⟩
      exact .dropped care absent
  obtain ⟨source, hsource, hlive⟩ | hgone := s.live_or_gone id
  · have hmarked : s.Takes { s with sources := s.sources.set id { source with items := items } }
        fun _ => False := .of_items rfl
    have htaken := hmarked.trans (disposeItems_takes _
      (if source.owns then source.items.filter (· ∉ items) else []))
    have htold := htaken.trans (Takes.of_items (items_signal _ id))
    simp only [perform, replace_of_live hsource hlive]
    refine htold.congr fun i => ?_
    rw [hreleases, inCare_iff hsource hlive]
    cases source.owns <;> simp
  · simp only [perform, replace_of_gone hgone]
    refine (Takes.of_items rfl).congr fun i => ?_
    simp [hreleases, not_inCare_of_gone hgone]

theorem Takes.of_idle {a : Action α} (hitems : s'.items = s.items) (hidle : ∀ i, ¬ s.Releases i a) :
    s.Takes s' fun i => s.Releases i a :=
  (Takes.of_items hitems).congr fun i => ⟨fun hi => hi.elim, hidle i⟩

/-- What one action disposes of. -/
theorem perform_takes (s : Supply α) (a : Action α) :
    s.Takes (s.perform a) fun i => s.Releases i a := by
  cases a with
  | addSource items owns => exact .of_idle rfl fun i h => by cases h
  | addListener subject => exact .of_idle rfl fun i h => by cases h
  | collect members naming =>
    refine .of_idle ?_ fun i h => by cases h
    obtain hsame | ⟨ids, -, hmade⟩ := s.perform_collect_cases members naming
    · rw [hsame]
    · rw [hmade]
  | collectItems items owns => exact .of_idle rfl fun i h => by cases h
  | replace id items => exact s.perform_replace_takes id items
  | signal id => exact .of_idle (s.items_signal id) fun i h => by cases h
  | read id => exact .of_idle (s.read_frame id).1 fun i h => by cases h
  | disposeItem id =>
    refine (s.disposeItem_takes id).congr fun i => ⟨fun hi => hi ▸ .direct, ?_⟩
    rintro ⟨⟩
    rfl
  | disposeSource id =>
    refine (s.disposeSource_takes id).congr fun i => ⟨.source, ?_⟩
    rintro (_ | _ | ⟨care⟩)
    exact care
  | disposeCollection id => exact s.disposeCollection_takes id

end Takes

/-! ### Gone for good -/

section Gone

variable {s : Supply α}

theorem sources_signal (s : Supply α) (id j : SourceId) :
    (s.signal id).2.sources[j]? = (s.sources[j]?).map fun source =>
      if j = id then { source with version := source.version + 1 } else source := by
  unfold signal
  cases hsource : s.sources[id]? with
  | none =>
    by_cases hj : j = id
    · simp [hj, hsource]
    · simp [hj]
  | some source =>
    have hlt : id < s.sources.length := (List.getElem?_eq_some_iff.1 hsource).1
    dsimp only
    rw [(foldl_invalidate _ _).2.1]
    change (s.sources.set id _)[j]? = _
    by_cases hj : j = id
    · rw [hj, List.getElem?_set_self hlt, hsource, Option.map_some, if_pos rfl]
    · simp [hj, List.getElem?_set_ne (Ne.symm hj)]

variable [Disposable α]

theorem sources_foldl_disposeSource (s : Supply α) (members : List Membership) (j : SourceId) :
    (members.foldl (fun s m => s.disposeSource m.source) s).sources[j]? =
      (s.sources[j]?).map fun source =>
        if members.any (·.source = j) then { source with disposed := true } else source := by
  induction members generalizing s with
  | nil => simp
  | cons m rest ih =>
    rw [List.foldl_cons, ih, sources_disposeSource, Option.map_map]
    congr 1
    funext source
    by_cases hm : j = m.source
    · simp [hm]
    · simp [hm, Ne.symm hm]

theorem gone_of_perform {id : SourceId} {source : Source} (hsource : s.sources[id]? = some source)
    (hgone : source.disposed = true) (a : Action α) :
    ∃ source', (s.perform a).sources[id]? = some source' ∧ source'.disposed = true := by
  have hlt : id < s.sources.length := (List.getElem?_eq_some_iff.1 hsource).1
  have hsame : s.sources[id]? = some source ∧ source.disposed = true := ⟨hsource, hgone⟩
  cases a with
  | addSource items owns => exact ⟨source, (List.getElem?_append_left hlt).trans hsource, hgone⟩
  | addListener subject => exact ⟨source, hsame⟩
  | collect members naming =>
    obtain hnone | ⟨ids, -, hmade⟩ := s.perform_collect_cases members naming
    · exact ⟨source, by rw [hnone, hsource], hgone⟩
    · exact ⟨source, by rw [hmade, hsource], hgone⟩
  | collectItems items owns => exact ⟨source, (List.getElem?_append_left hlt).trans hsource, hgone⟩
  | replace i items =>
    refine ⟨source, ?_, hgone⟩
    obtain ⟨source', hsource', hlive⟩ | hgone' := s.live_or_gone i
    · have hother : id ≠ i := by
        rintro rfl
        rw [hsource', Option.some.injEq] at hsource
        simp [hsource, hgone] at hlive
      simp only [perform, replace_of_live hsource' hlive]
      rw [sources_signal, (disposeItems_frame _ _).1]
      simp [hother, List.getElem?_set_ne (Ne.symm hother), hsource]
    · simpa only [perform, replace_of_gone hgone'] using hsource
  | signal i =>
    refine ⟨_, by rw [perform, sources_signal, hsource]; rfl, ?_⟩
    dsimp only
    split <;> exact hgone
  | read i => exact ⟨source, by rw [perform, (s.read_frame i).2, hsource], hgone⟩
  | disposeItem i => exact ⟨source, hsame⟩
  | disposeSource i =>
    refine ⟨_, by rw [perform, sources_disposeSource, hsource]; rfl, ?_⟩
    dsimp only
    split
    · rfl
    · exact hgone
  | disposeCollection i =>
    rw [perform]
    obtain ⟨c, hc, hlive⟩ | hclosed := s.open_or_closed i
    · rw [disposeCollection_of_live hc hlive]
      refine ⟨_, by rw [sources_foldl_disposeSource, hsource]; rfl, ?_⟩
      dsimp only
      split
      · rfl
      · exact hgone
    · rw [disposeCollection_of_closed hclosed]
      exact ⟨source, hsame⟩

theorem gone_of_foldl {id : SourceId} {source : Source} (hsource : s.sources[id]? = some source)
    (hgone : source.disposed = true) (later : List (Action α)) :
    ∃ source', (later.foldl perform s).sources[id]? = some source' ∧ source'.disposed = true := by
  induction later generalizing s source with
  | nil => exact ⟨source, hsource, hgone⟩
  | cons a rest ih =>
    obtain ⟨source', hsource', hgone'⟩ := gone_of_perform hsource hgone a
    exact ih hsource' hgone'

theorem closed_of_perform {id : CollectionId} {c : Collection α} (hc : s.collections[id]? = some c)
    (hclosed : c.disposed = true) (a : Action α) :
    ∃ c', (s.perform a).collections[id]? = some c' ∧ c'.disposed = true := by
  have hlt : id < s.collections.length := (List.getElem?_eq_some_iff.1 hc).1
  cases s.perform_effect a with
  | quiet collections _ _ => exact ⟨c, by rw [collections, hc], hclosed⟩
  | made _ collections _ _ _ _ =>
    exact ⟨c, by rw [collections, List.getElem?_append_left hlt, hc], hclosed⟩
  | rebuilt id' c₀ ids found _ _ result =>
    rw [result]
    by_cases hid : id' = id
    · subst hid
      obtain rfl : c₀ = c := Option.some.inj (found.symm.trans hc)
      exact ⟨_, List.getElem?_set_self hlt, hclosed⟩
    · exact ⟨c, (List.getElem?_set_ne hid).trans hc, hclosed⟩
  | told source _ _ _ collections =>
    refine ⟨_, by rw [collections, hc]; rfl, ?_⟩
    dsimp only [Collection.spoiled]
    split_ifs <;> exact hclosed
  | closed id' _ _ collections =>
    refine ⟨_, by rw [collections, hc]; rfl, ?_⟩
    dsimp only [Collection.closed]
    split_ifs <;> exact hclosed

theorem closed_of_foldl {id : CollectionId} {c : Collection α} (hc : s.collections[id]? = some c)
    (hclosed : c.disposed = true) (later : List (Action α)) :
    ∃ c', (later.foldl perform s).collections[id]? = some c' ∧ c'.disposed = true := by
  induction later generalizing s c with
  | nil => exact ⟨c, hc, hclosed⟩
  | cons a rest ih =>
    obtain ⟨c', hc', hclosed'⟩ := closed_of_perform hc hclosed a
    exact ih hc' hclosed'

theorem gone_of_disposeSource (s : Supply α) (id : SourceId) :
    ∀ source, (s.disposeSource id).sources[id]? = some source → source.disposed = true := by
  intro source hsource
  rw [sources_disposeSource, Option.map_eq_some_iff] at hsource
  obtain ⟨source, -, rfl⟩ := hsource
  rw [if_pos rfl]

theorem disposeSource_disposeSource (s : Supply α) (id : SourceId) :
    (s.disposeSource id).disposeSource id = s.disposeSource id :=
  disposeSource_of_gone (s.gone_of_disposeSource id)

theorem closed_of_disposeCollection (s : Supply α) (id : CollectionId) :
    ∀ c, (s.disposeCollection id).collections[id]? = some c → c.disposed = true := by
  intro c hc
  rw [collections_disposeCollection, Option.map_eq_some_iff] at hc
  obtain ⟨c, -, rfl⟩ := hc
  rw [if_pos rfl, Collection.closed]
  split
  · assumption
  · rfl

theorem gone_of_disposeCollection {id : CollectionId} {c : Collection α}
    (hc : s.collections[id]? = some c) (hlive : c.disposed = false) {m : Membership}
    (hm : m ∈ c.members) (howned : m.owned = true) :
    ∀ source, (s.disposeCollection id).sources[m.source]? = some source →
      source.disposed = true := by
  intro source hsource
  rw [disposeCollection_of_live hc hlive, sources_foldl_disposeSource,
    Option.map_eq_some_iff] at hsource
  obtain ⟨source, -, rfl⟩ := hsource
  have hany : (c.members.filter (·.owned)).any (·.source = m.source) = true :=
    List.any_eq_true.2 ⟨m, List.mem_filter.2 ⟨hm, howned⟩, by simp⟩
  rw [if_pos hany]

end Gone

section Runs

variable [Disposable α]

/-! ### Runs -/

theorem released_append {items : List α} {actions : List (Action α)} {a : Action α} {i : ItemId} :
    Released items (actions ++ [a]) i ↔
      Released items actions i ∨ (run items actions).Releases i a := by
  constructor
  · rintro ⟨before, b, after, hsplit, hb⟩
    rcases List.eq_nil_or_concat after with rfl | ⟨after, c, rfl⟩
    · obtain ⟨rfl, hlast⟩ := List.append_inj' hsplit rfl
      cases hlast
      exact .inr hb
    · have hsplit' : actions ++ [a] = (before ++ b :: after) ++ [c] := by simpa using hsplit
      obtain ⟨rfl, -⟩ := List.append_inj' hsplit' rfl
      exact .inl ⟨before, b, after, rfl, hb⟩
  · rintro (⟨before, b, after, rfl, hb⟩ | hlast)
    · exact ⟨before, b, after ++ [a], by simp, hb⟩
    · exact ⟨actions, a, [], rfl, hlast⟩

theorem run_takes (items : List α) (actions : List (Action α)) :
    Takes { items := items } (run items actions) (Released items actions) := by
  induction actions using List.reverseRecOn with
  | nil =>
    refine (Takes.of_items rfl).congr fun i => ⟨fun hi => hi.elim, ?_⟩
    rintro ⟨before, a, after, hsplit, -⟩
    simp at hsplit
  | append_singleton actions a ih =>
    rw [run_append]
    exact (ih.trans ((run items actions).perform_takes a)).congr fun i => released_append.symm

theorem iterate_dispose {gone : α → Bool} (hgone : ∀ a, gone (Disposable.dispose a) = true)
    (hagain : ∀ a, gone a = true → Disposable.dispose a = a) (n : Nat) (a : α) :
    Disposable.dispose^[n + 1] a = Disposable.dispose a := by
  induction n with
  | zero => rfl
  | succ n ih => rw [Function.iterate_succ_apply', ih, hagain _ (hgone a)]

/-- What is disposed of after any run: the items that were disposed of before it, and those that one
of its actions released; nothing else happens to an item. Here `gone` tells what has been disposed
of, and disposing of that again changes nothing. A source that does not own its items and a
collection that does not own its sources dispose of nothing. What has been disposed of once is not
disposed of again, gives no items, and takes none. -/
theorem disposed_of_run {gone : α → Bool} (hgone : ∀ a, gone (Disposable.dispose a) = true)
    (hagain : ∀ a, gone a = true → Disposable.dispose a = a) (items : List α)
    (actions : List (Action α)) :
    let s := run items actions
    (∀ i a, items[i]? = some a → ∃ a', s.items[i]? = some a' ∧
      (gone a' = true ↔ gone a = true ∨ Released items actions i) ∧
      (Released items actions i → a' = Disposable.dispose a) ∧
      (¬ Released items actions i → a' = a)) ∧
    (∀ id source, s.sources[id]? = some source → source.owns = false →
      (s.disposeSource id).items = s.items ∧
        ∀ next, (s.perform (.replace id next)).items = s.items) ∧
    (∀ id c, s.collections[id]? = some c → (∀ m ∈ c.members, m.owned = false) →
      (s.disposeCollection id).items = s.items ∧ (s.disposeCollection id).sources = s.sources) ∧
    (∀ id, (s.disposeSource id).disposeSource id = s.disposeSource id ∧
      ∀ source, (s.disposeSource id).sources[id]? = some source → source.disposed = true) ∧
    (∀ id, (s.disposeCollection id).disposeCollection id = s.disposeCollection id ∧
      ∀ c, (s.disposeCollection id).collections[id]? = some c → c.disposed = true) ∧
    (∀ id c, s.collections[id]? = some c → c.disposed = false →
      ∀ m ∈ c.members, m.owned = true → ∀ source,
        (s.disposeCollection id).sources[m.source]? = some source → source.disposed = true) ∧
    (∀ i, (s.disposeItem i).disposeItem i = s.disposeItem i) ∧
    (∀ id source, s.sources[id]? = some source → source.disposed = true →
      ∀ later : List (Action α), let s' := later.foldl perform s
        s'.sourceItems id = .error (.disposed .dataSource) ∧
          ∀ next, s'.replace id next = .error (.disposed .dataSource) ∧
            s'.perform (.replace id next) = s') ∧
    ∀ id c, s.collections[id]? = some c → c.disposed = true →
      ∀ later : List (Action α),
        ((later.foldl perform s).read id).1 = .error (.disposed .collection) := by
  intro s
  refine ⟨fun i a ha => ?_, fun id source hsource howns => ⟨?_, fun next => ?_⟩,
    fun id c hc hunowned => ?_, fun id => ⟨s.disposeSource_disposeSource id, s.gone_of_disposeSource id⟩,
    fun id => ⟨disposeCollection_of_closed (s.closed_of_disposeCollection id),
      s.closed_of_disposeCollection id⟩,
    fun id c hc hlive m hm howned => gone_of_disposeCollection hc hlive hm howned,
    fun i => ?_, fun id source hsource hd later => ?_, fun id c hc hd later => ?_⟩
  · have htakes := run_takes items actions
    by_cases hreleased : Released items actions i
    · obtain ⟨n, hn⟩ := htakes.taken i hreleased
      refine ⟨Disposable.dispose a, ?_, by simp [hgone, hreleased], fun _ => rfl,
        fun hspared => (hspared hreleased).elim⟩
      rw [hn, ha, Option.map_some, iterate_dispose hgone hagain]
    · exact ⟨a, (htakes.spared i hreleased).trans ha, by simp [hreleased],
        fun htaken => (hreleased htaken).elim, fun _ => rfl⟩
  · exact (s.disposeSource_takes id).items_eq (not_inCare_of_unowning hsource howns)
  · refine (s.perform_takes (.replace id next)).items_eq fun i => ?_
    rintro (_ | ⟨care, -⟩)
    exact not_inCare_of_unowning hsource howns i care
  · obtain ⟨c', hc', hlive⟩ | hclosed := s.open_or_closed id
    · obtain rfl : c = c' := Option.some.inj (hc.symm.trans hc')
      have hnone : c.members.filter (·.owned) = [] :=
        List.filter_eq_nil_iff.2 fun m hm => by simp [hunowned m hm]
      rw [disposeCollection_of_live hc hlive, hnone]
      exact ⟨rfl, rfl⟩
    · rw [disposeCollection_of_closed hclosed]
      exact ⟨rfl, rfl⟩
  · have htwice : (Disposable.dispose ∘ Disposable.dispose : α → α) = Disposable.dispose :=
      funext fun a => hagain _ (hgone a)
    simp only [disposeItem, List.modify_modify_eq, htwice]
  · obtain ⟨source', hsource', hd'⟩ := gone_of_foldl hsource hd later
    have hgone' : ∀ source, (later.foldl perform s).sources[id]? = some source →
        source.disposed = true := by
      intro source'' hsource''
      obtain rfl : source' = source'' := Option.some.inj (hsource'.symm.trans hsource'')
      exact hd'
    refine ⟨by simp [sourceItems, hsource', hd'], fun next => ?_⟩
    have hrefused := replace_of_gone hgone' next
    exact ⟨hrefused, by simp [perform, hrefused]⟩
  · obtain ⟨c', hc', hd'⟩ := closed_of_foldl hc hd later
    simp [read, hc', hd']

end Runs

/-! ### A key that is dropped -/

theorem dispose_of_isDisposed (k : SecretKey) (h : k.isDisposed = true) :
    Disposable.dispose k = k := by
  obtain ⟨id, metadata, profile, material, hprofile⟩ := k
  obtain rfl : material = none := Option.isNone_iff_eq_none.1 h
  rfl

/-- Two sources hold the same two keys, and a collection owns the one that owns its keys. The key that
this one drops is disposed of, and the other with the collection, but none with the other source. -/
theorem disposed_of_run_dropped :
    let keys := [namedKey, namelessKey]
    let start : List (Action SecretKey) := [.addSource [0, 1] true, .addSource [0, 1] false,
      .collect [⟨0, true⟩, ⟨1, false⟩] none]
    let drop : List (Action SecretKey) := start ++ [.replace 0 [1], .disposeSource 1]
    let close : List (Action SecretKey) := drop ++ [.disposeCollection 0]
    (Released keys drop 0 ∧ (run keys drop).items[0]? = some namedKey.dispose) ∧
      (¬ Released keys drop 1 ∧ (run keys drop).items[1]? = some namelessKey) ∧
      (Released keys close 1 ∧ (run keys close).items[1]? = some namelessKey.dispose) ∧
      (∀ (later : List (Action SecretKey)) (next : List ItemId),
        (later.foldl perform (run keys drop)).replace 1 next = .error (.disposed .dataSource)) ∧
      ∀ later : List (Action SecretKey),
        ((later.foldl perform (run keys close)).read 0).1 = .error (.disposed .collection) := by
  intro keys start drop close
  have hrun := fun actions =>
    @disposed_of_run _ _ SecretKey.isDisposed (fun _ => rfl) dispose_of_isDisposed keys actions
  obtain ⟨hdrop, -, -, -, -, -, -, hrefused, -⟩ := hrun drop
  obtain ⟨hclose, -, -, -, -, -, -, -, hunread⟩ := hrun close
  have hdropped : Released keys drop 0 :=
    ⟨start, .replace 0 [1], [.disposeSource 1], rfl,
      .dropped ⟨_, rfl, rfl, rfl, by decide⟩ (by decide)⟩
  have hclosed : Released keys close 1 :=
    ⟨drop, .disposeCollection 0, [], rfl,
      .collection rfl rfl (.head _) rfl ⟨_, rfl, rfl, rfl, by decide⟩⟩
  refine ⟨⟨hdropped, ?_⟩, ?_, ⟨hclosed, ?_⟩, fun later next => ?_, fun later => ?_⟩
  · obtain ⟨a, ha, -, hdisposed, -⟩ := hdrop 0 namedKey rfl
    rw [ha, hdisposed hdropped]
    rfl
  · obtain ⟨a, ha, hgone, -, hspared⟩ := hdrop 1 namelessKey rfl
    have hkept : (run keys drop).items[1]? = some namelessKey := rfl
    obtain rfl : namelessKey = a := Option.some.inj (hkept.symm.trans ha)
    exact ⟨fun h => Bool.false_ne_true (hgone.2 (.inr h)), hkept⟩
  · obtain ⟨a, ha, -, hdisposed, -⟩ := hclose 1 namelessKey rfl
    rw [ha, hdisposed hclosed]
    rfl
  · obtain ⟨source, hsource, hgone⟩ : ∃ source, (run keys drop).sources[1]? = some source ∧
        source.disposed = true := ⟨_, rfl, rfl⟩
    exact ((hrefused 1 source hsource hgone later).2 next).1
  · obtain ⟨c, hc, hgone⟩ : ∃ c, (run keys close).collections[0]? = some c ∧ c.disposed = true :=
      ⟨_, rfl, rfl⟩
    exact hunread 0 c hc hgone later

end TokenSeal.Supply
