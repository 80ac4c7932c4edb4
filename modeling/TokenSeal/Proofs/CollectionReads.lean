import TokenSeal.Proofs.Supply
import TokenSeal.Vault

/-! What is read of a collection is what its sources hold at that time. A collection that is not
stale has it already, through whatever happened since it was merged. -/

namespace TokenSeal.Supply

variable {α : Type}

def rebuildsOf (s : Supply α) (id : CollectionId) : Option Nat :=
  (s.collections[id]?).map (·.rebuilds)

/-- The last action of `before` made the collection or merged it anew, and none after it did. -/
structure LastBuilt [Disposable α] (items : List α) (actions before : List (Action α)) (id : CollectionId) :
    Prop where
  built : ∃ earlier a, before = earlier ++ [a] ∧
    (run items earlier).rebuildsOf id ≠ (run items before).rebuildsOf id
  since : ∃ after, actions = before ++ after ∧ ∀ part, part <+: after →
    (run items (before ++ part)).rebuildsOf id = (run items before).rebuildsOf id

/-- The collection is merged as its sources stand. -/
structure Builds (s s' : Supply α) (id : CollectionId) (c' : Collection α) : Prop where
  counts : s.rebuildsOf id ≠ s'.rebuildsOf id
  joins : c'.items = s'.joined c'.naming (s'.heldBy c'.members)
  known : ∀ m ∈ c'.members, m.source < s'.sources.length

/-- The collection is not merged, and not fresh unless its sources hold what they held. -/
structure Keeps (s s' : Supply α) (c c' : Collection α) : Prop where
  members : c'.members = c.members
  naming : c'.naming = c.naming
  rebuilds : c'.rebuilds = c.rebuilds
  items : c'.disposed = false → c'.items = c.items ∧ c.disposed = false
  fresh : c'.stale = false → c.stale = false ∧
    ∀ m ∈ c.members, m.source < s.sources.length → s'.held m.source = s.held m.source

section Step

variable {s s' : Supply α} {id : CollectionId} {c c' : Collection α}

theorem Keeps.of_holds (h : s.Holds s') (c : Collection α) : s.Keeps s' c c :=
  ⟨rfl, rfl, rfl, fun hlive => ⟨rfl, hlive⟩, fun hfresh => ⟨hfresh, fun _ _ hm => h.2 _ hm⟩⟩

theorem Keeps.of_told {source : SourceId} (hheld : ∀ i, i ≠ source → s'.held i = s.held i)
    (c : Collection α) :
    s.Keeps s' c (if c.members.any (·.source = source) then c.spoiled else c) := by
  by_cases hmember : c.members.any (·.source = source) = true
  · rw [if_pos hmember]
    unfold Collection.spoiled
    by_cases hstale : c.stale = true
    · rw [if_pos hstale]
      exact ⟨rfl, rfl, rfl, fun hlive => ⟨rfl, hlive⟩, fun hfresh => by simp [hstale] at hfresh⟩
    · rw [if_neg hstale]
      exact ⟨rfl, rfl, rfl, fun hlive => ⟨rfl, hlive⟩, fun hfresh => nomatch hfresh⟩
  -- No source of the collection is the one that changed.
  · rw [if_neg hmember]
    refine ⟨rfl, rfl, rfl, fun hlive => ⟨rfl, hlive⟩, fun hfresh => ⟨hfresh, fun m hm _ => ?_⟩⟩
    refine hheld m.source fun heq => hmember (List.any_eq_true.2 ⟨m, hm, ?_⟩)
    simpa using heq

theorem Keeps.of_closed (h : s.Holds s') (c : Collection α) : s.Keeps s' c c.closed := by
  unfold Collection.closed
  by_cases hdisposed : c.disposed = true
  · rw [if_pos hdisposed]
    exact .of_holds h c
  · rw [if_neg hdisposed]
    exact ⟨rfl, rfl, rfl, fun hlive => (nomatch hlive),
      fun hfresh => ⟨hfresh, fun _ _ hm => h.2 _ hm⟩⟩

theorem Keeps.heldBy (h : s.Keeps s' c c') (hfresh : c'.stale = false)
    (hknown : ∀ m ∈ c.members, m.source < s.sources.length) :
    s'.heldBy c'.members = s.heldBy c.members := by
  rw [Supply.heldBy, Supply.heldBy, h.members]
  exact List.flatMap_congr fun m hm => (h.fresh hfresh).2 m hm (hknown m hm)

variable [Disposable α]

theorem Effect.length_le (h : s.Effect s') : s.sources.length ≤ s'.sources.length := by
  cases h with
  | quiet _ holds _ => exact holds.1
  | made _ _ holds _ _ _ => exact holds.1
  | rebuilt _ _ _ _ _ _ result => exact Nat.le_of_eq (by rw [result])
  | told _ length _ _ _ => exact Nat.le_of_eq length.symm
  | closed _ holds _ _ => exact holds.1

theorem Effect.builds_or_keeps (h : s.Effect s') (hc' : s'.collections[id]? = some c') :
    s.Builds s' id c' ∨ ∃ c, s.collections[id]? = some c ∧ s.Keeps s' c c' := by
  cases h with
  | quiet collections holds _ => exact .inr ⟨c', collections ▸ hc', .of_holds holds c'⟩
  | made c collections holds items joins known =>
    by_cases hid : id < s.collections.length
    · rw [collections, List.getElem?_append_left hid] at hc'
      exact .inr ⟨c', hc', .of_holds holds c'⟩
    · have hnone : s.collections[id]? = none := List.getElem?_eq_none (Nat.not_lt.1 hid)
      have hcount : s.rebuildsOf id ≠ s'.rebuildsOf id := by simp [rebuildsOf, hnone, hc']
      rw [collections, List.getElem?_append_right (Nat.not_lt.1 hid)] at hc'
      obtain rfl : c = c' := by
        have hlt : id - s.collections.length < [c].length := (List.getElem?_eq_some_iff.1 hc').1
        simpa [Nat.lt_one_iff.1 hlt] using hc'
      exact .inl ⟨hcount, joins, known⟩
  | rebuilt id' c ids found joins known result =>
    by_cases hid : id' = id
    · subst hid
      subst result
      have hlt : id' < s.collections.length := (List.getElem?_eq_some_iff.1 found).1
      have hset := hc'
      rw [List.getElem?_set_self hlt, Option.some.injEq] at hset
      subst hset
      exact .inl ⟨by simp [rebuildsOf, found, hc'], joins, known⟩
    · have hsources : s'.sources = s.sources := by rw [result]
      rw [result, List.getElem?_set_ne hid] at hc'
      exact .inr ⟨c', hc', .of_holds (.of_sources hsources) c'⟩
  | told source _ held _ collections =>
    rw [collections, Option.map_eq_some_iff] at hc'
    obtain ⟨c, hc, rfl⟩ := hc'
    exact .inr ⟨c, hc, .of_told held c⟩
  | closed id' holds _ collections =>
    rw [collections, Option.map_eq_some_iff] at hc'
    obtain ⟨c, hc, rfl⟩ := hc'
    refine .inr ⟨c, hc, ?_⟩
    split
    · exact .of_closed holds c
    · exact .of_holds holds c

theorem Effect.lasts (h : s.Effect s') (hc : s.collections[id]? = some c) :
    ∃ c', s'.collections[id]? = some c' ∧ c'.members = c.members ∧ c'.naming = c.naming := by
  have hlt : id < s.collections.length := (List.getElem?_eq_some_iff.1 hc).1
  cases h with
  | quiet collections _ _ => exact ⟨c, by rw [collections, hc], rfl, rfl⟩
  | made _ collections _ _ _ _ =>
    exact ⟨c, by rw [collections, List.getElem?_append_left hlt, hc], rfl, rfl⟩
  | rebuilt id' c₀ ids found _ _ result =>
    subst result
    by_cases hid : id' = id
    · subst hid
      obtain rfl : c₀ = c := Option.some.inj (found.symm.trans hc)
      exact ⟨_, List.getElem?_set_self hlt, rfl, rfl⟩
    · exact ⟨c, (List.getElem?_set_ne hid).trans hc, rfl, rfl⟩
  | told source _ held _ collections =>
    have hkeeps := Keeps.of_told held c
    exact ⟨_, by rw [collections, hc]; rfl, hkeeps.members, hkeeps.naming⟩
  | closed id' holds _ collections =>
    refine ⟨_, by rw [collections, hc]; rfl, ?_⟩
    have hkeeps := Keeps.of_closed holds c
    dsimp only
    by_cases hid : id = id'
    · rw [if_pos hid]
      exact ⟨hkeeps.members, hkeeps.naming⟩
    · rw [if_neg hid]
      exact ⟨rfl, rfl⟩

end Step

/-! ### Runs -/

section Run

variable [Disposable α] {items : List α} {actions before : List (Action α)} {id : CollectionId}

theorem LastBuilt.now {a : Action α}
    (h : (run items actions).rebuildsOf id ≠ (run items (actions ++ [a])).rebuildsOf id) :
    LastBuilt items (actions ++ [a]) (actions ++ [a]) id := by
  refine ⟨⟨actions, a, rfl, h⟩, [], (List.append_nil _).symm, fun part hpart => ?_⟩
  rw [List.prefix_nil.1 hpart, List.append_nil]

theorem LastBuilt.later {a : Action α} (h : LastBuilt items actions before id)
    (hsame : (run items (actions ++ [a])).rebuildsOf id = (run items actions).rebuildsOf id) :
    LastBuilt items (actions ++ [a]) before id := by
  obtain ⟨hbuilt, after, rfl, hsince⟩ := h
  refine ⟨hbuilt, after ++ [a], List.append_assoc _ _ _, fun part hpart => ?_⟩
  obtain rfl | hearlier := List.prefix_concat_iff.1 hpart
  · rw [← List.append_assoc, hsame]
    exact hsince after (List.prefix_refl _)
  · exact hsince part hearlier

/-- The invariant of runs: a collection that is neither stale nor disposed of has what its sources
hold, with the names that the items had when it was last merged. -/
theorem fresh_of_run (items : List α) (actions : List (Action α)) {c : Collection α}
    (hc : (run items actions).collections[id]? = some c) :
    (∀ m ∈ c.members, m.source < (run items actions).sources.length) ∧
      ∃ before, LastBuilt items actions before id ∧ (c.disposed = false → c.stale = false →
        c.items = (run items before).joined c.naming ((run items actions).heldBy c.members)) := by
  induction actions using List.reverseRecOn generalizing c with
  | nil => exact nomatch hc
  | append_singleton actions a ih =>
    have heffect := (run items actions).perform_effect a
    rw [← run_append] at heffect
    obtain hbuilds | ⟨c₀, hc₀, hkeeps⟩ := heffect.builds_or_keeps hc
    · exact ⟨hbuilds.known, _, .now hbuilds.counts, fun _ _ => hbuilds.joins⟩
    · obtain ⟨hknown, before, hlast, hitems⟩ := ih hc₀
      refine ⟨fun m hm => ?_, before, hlast.later ?_, fun hlive hfresh => ?_⟩
      · rw [hkeeps.members] at hm
        exact Nat.lt_of_lt_of_le (hknown m hm) heffect.length_le
      · simp [rebuildsOf, hc, hc₀, hkeeps.rebuilds]
      · obtain ⟨hsame, hlive₀⟩ := hkeeps.items hlive
        rw [hsame, hkeeps.heldBy hfresh hknown, hkeeps.naming]
        exact hitems hlive₀ (hkeeps.fresh hfresh).1

theorem members_of_foldl {s : Supply α} {c : Collection α} (hc : s.collections[id]? = some c)
    (later : List (Action α)) :
    ∃ c', (later.foldl perform s).collections[id]? = some c' ∧ c'.members = c.members ∧
      c'.naming = c.naming := by
  induction later generalizing s c with
  | nil => exact ⟨c, hc, rfl, rfl⟩
  | cons a rest ih =>
    obtain ⟨c₁, hc₁, hmembers₁, hnaming₁⟩ := (s.perform_effect a).lasts hc
    obtain ⟨c', hc', hmembers, hnaming⟩ := ih hc₁
    exact ⟨c', hc', hmembers.trans hmembers₁, hnaming.trans hnaming₁⟩

theorem foldl_run (items : List α) (actions later : List (Action α)) :
    later.foldl perform (run items actions) = run items (actions ++ later) := by
  rw [run, run, List.foldl_append]

theorem LastBuilt.ages (h : LastBuilt items actions before id) :
    (run items before).Ages (run items actions) := by
  obtain ⟨-, after, rfl, -⟩ := h
  rw [← foldl_run]
  exact foldl_perform_ages _ _

theorem joined_of_ages {s s' : Supply α} (h : s.Ages s') {naming : Option (α → String)}
    (hnaming : ∀ f, naming = some f → ∀ a, f (Disposable.dispose a) = f a) (ids : List ItemId) :
    s'.joined naming ids = s.joined naming ids := by
  cases naming with
  | none => rfl
  | some f =>
    have hname : s'.nameIn f = s.nameIn f := funext (h.nameIn (hnaming f rfl))
    rw [joined, joined, hname]

theorem Ages.lookup {s s' : Supply α} (h : s.Ages s') (ids : List ItemId) :
    List.Forall₂ (fun a b => ∃ n : Nat, b = Disposable.dispose^[n] a) (s.lookup ids)
      (s'.lookup ids) := by
  induction ids with
  | nil => exact .nil
  | cons i rest ih =>
    obtain ⟨n, hn⟩ := h i
    rw [Supply.lookup, Supply.lookup, List.filterMap_cons, List.filterMap_cons, hn]
    cases s.items[i]? with
    | none => exact ih
    | some a => exact .cons ⟨n, rfl⟩ ih

/-- Whatever is done before and after, what is read of a collection is what its sources hold at
that time, in the order of its members. Where items count as the same by their names, these are the
names that they had when the collection was last merged, and the names that they have when it is
read unless disposal changes names. The items read are the same ones for good, but for disposal. -/
theorem read_of_run {earlier later : List (Action α)} {c : Collection α} {snapshot : List ItemId}
    (hc : (run items earlier).collections[id]? = some c)
    (h : ((run items (earlier ++ later)).read id).1 = .ok snapshot) :
    let s := run items (earlier ++ later)
    (∃ before, LastBuilt items (earlier ++ later ++ [.read id]) before id ∧
      snapshot = (run items before).joined c.naming (s.heldBy c.members)) ∧
    ((∀ f, c.naming = some f → ∀ a, f (Disposable.dispose a) = f a) →
      snapshot = s.joined c.naming (s.heldBy c.members)) ∧
    ∀ more : List (Action α),
      List.Forall₂ (fun a b => ∃ n : Nat, b = Disposable.dispose^[n] a) (s.lookup snapshot)
        ((more.foldl perform s).lookup snapshot) := by
  intro s
  have hread : run items (earlier ++ later ++ [.read id]) = (s.read id).2 := run_append _ _ _
  obtain ⟨c', hc', hitems, hfresh, hlive⟩ := read_eq_ok h
  rw [← hread] at hc'
  obtain ⟨-, before, hlast, hjoined⟩ := fresh_of_run items _ hc'
  have hmembers : c'.members = c.members ∧ c'.naming = c.naming := by
    obtain ⟨c₁, hc₁, hsame⟩ := members_of_foldl hc (later ++ [.read id])
    rw [foldl_run, ← List.append_assoc, hc'] at hc₁
    cases hc₁
    exact hsame
  have hheld : (s.read id).2.heldBy c.members = s.heldBy c.members := by
    simp only [heldBy, held, (s.read_frame id).2]
  have hsnapshot : snapshot = (run items before).joined c.naming (s.heldBy c.members) := by
    rw [← hitems, hjoined hlive hfresh, hmembers.1, hmembers.2, hread, hheld]
  refine ⟨⟨before, hlast, hsnapshot⟩, fun hnaming => ?_, fun more => ?_⟩
  · have hages : (run items before).Ages s :=
      hlast.ages.trans (.of_items (by rw [hread, (s.read_frame id).1]))
    rw [hsnapshot, joined_of_ages hages hnaming]
  · exact (foldl_perform_ages s more).lookup snapshot

end Run

/-! ### Two keys -/

def namedKey : SecretKey := .make (some "a") (.symmetric [0]) {}

def namelessKey : SecretKey := .make none (.symmetric [1]) {}

theorem read_of_run_replaced :
    let items := [namedKey, namelessKey]
    let naming : SecretKey → String := fun k => k.id.getD ""
    let members : List Membership := [⟨0, false⟩, ⟨0, true⟩]
    let earlier : List (Action SecretKey) := [.addSource [0] true, .collect members (some naming)]
    let later : List (Action SecretKey) := [.replace 0 [1, 0]]
    let s := run items (earlier ++ later)
    (∃ c, (run items earlier).collections[0]? = some c ∧ c.members = members) ∧
      (s.read 0).1 = .ok [1, 0] ∧ [1, 0] = s.joined (some naming) (s.heldBy members) := by
  intro items naming members earlier later s
  have hread : (s.read 0).1 = .ok [1, 0] := by decide
  have hc : (run items earlier).collections[0]? =
      some { members := members, naming := some naming, items := [0] } := rfl
  refine ⟨⟨_, hc, rfl⟩, hread, (read_of_run hc hread).2.1 ?_⟩
  rintro f ⟨⟩ k
  rfl

/-- The id of a key that is not disposed of. -/
def liveId (k : SecretKey) : String := k.keyId.toOption.join.getD ""

/-- Disposing of the source of the first key takes that key's name away, but the collection is not
merged anew: it is read with both keys though by now they have the same name. -/
theorem read_disposed :
    let members : List Membership := [⟨0, false⟩, ⟨1, false⟩]
    let s := run [namedKey, namelessKey] [.addSource [0] true, .addSource [1] false,
      .collect members (some liveId), .disposeSource 0]
    (s.read 0).1 = .ok [0, 1] ∧ s.joined (some liveId) (s.heldBy members) = [0] := by
  decide

end TokenSeal.Supply
