import TokenSeal.Proofs.Listeners
import TokenSeal.Proofs.CollectionReads

/-! What changes cost. A collection takes one new version and is merged once for all that happens to
its sources between two reads, however much that is. -/

namespace TokenSeal

variable {α : Type}

namespace Supply

/-! ### Changes and merges -/

section Actions

variable [Disposable α]

/-- The source that an action changes. A replacement that fails changes none. -/
def changed (s : Supply α) : Action α → Option SourceId
  | .replace id items => if (s.replace id items).toOption.isSome then some id else none
  | .signal id => if id < s.sources.length then some id else none
  | _ => none

/-- Whether an action changes a source of the collection. -/
def changes (id : CollectionId) (s : Supply α) (a : Action α) : Bool :=
  (s.collections[id]?).any fun c => (s.changed a).any fun source => c.members.any (·.source = source)

/-- Whether an action reads the collection and gets its items. -/
def reads (id : CollectionId) (s : Supply α) : Action α → Bool
  | .read i => i = id && (s.read id).1.toOption.isSome
  | _ => false

/-- How many of the actions have a property when their turn comes. -/
def tally (p : Supply α → Action α → Bool) : Supply α → List (Action α) → Nat
  | _, [] => 0
  | s, a :: rest => (if p s a then 1 else 0) + tally p (s.perform a) rest

end Actions

end Supply

namespace Collection

/-- The collection is not merged; if a source changes, and it is not stale already, it is stale now
and that is a new version. -/
structure Bears (c c' : Collection α) (change : Bool) : Prop where
  members : c'.members = c.members
  naming : c'.naming = c.naming
  rebuilds : c'.rebuilds = c.rebuilds
  stale : c'.stale = (c.stale || change)
  version : c'.version = c.version + (if c.stale then 0 else change.toNat)
  items : c'.disposed = false → c'.items = c.items ∧ c.disposed = false

/-- The collection has been read. It is merged if it was stale. -/
structure Refreshed (c c' : Collection α) : Prop where
  members : c'.members = c.members
  naming : c'.naming = c.naming
  rebuilds : c'.rebuilds = c.rebuilds + c.stale.toNat
  stale : c'.stale = false
  version : c'.version = c.version

variable {c c' c'' : Collection α}

theorem Bears.refl (c : Collection α) : c.Bears c false :=
  ⟨rfl, rfl, rfl, by simp, by simp, fun hlive => ⟨rfl, hlive⟩⟩

theorem Bears.of_spoiled (c : Collection α) : c.Bears c.spoiled true := by
  unfold spoiled
  by_cases hstale : c.stale = true
  · rw [if_pos hstale]
    exact ⟨rfl, rfl, rfl, by simp [hstale], by simp [hstale], fun hlive => ⟨rfl, hlive⟩⟩
  · rw [if_neg hstale]
    exact ⟨rfl, rfl, rfl, by simp, by simp [hstale], fun hlive => ⟨rfl, hlive⟩⟩

theorem Bears.of_closed (c : Collection α) : c.Bears c.closed false := by
  unfold closed
  by_cases hdisposed : c.disposed = true
  · rw [if_pos hdisposed]
    exact .refl c
  · rw [if_neg hdisposed]
    exact ⟨rfl, rfl, rfl, by simp, by simp, fun hlive => nomatch hlive⟩

theorem Bears.trans {p q : Bool} (h : c.Bears c' p) (h' : c'.Bears c'' q) :
    c.Bears c'' (p || q) := by
  refine ⟨h'.members.trans h.members, h'.naming.trans h.naming, h'.rebuilds.trans h.rebuilds, ?_, ?_,
    fun hlive => ?_⟩
  · rw [h'.stale, h.stale, Bool.or_assoc]
  · rw [h'.version, h.version, h.stale]
    cases c.stale <;> cases p <;> cases q <;> simp
  · obtain ⟨hitems', hlive'⟩ := h'.items hlive
    obtain ⟨hitems, hlive⟩ := h.items hlive'
    exact ⟨hitems'.trans hitems, hlive⟩

end Collection

namespace Supply

/-- What becomes of a collection with one action. -/
inductive Turn [Disposable α] (s : Supply α) (id : CollectionId) (a : Action α) :
    Option (Collection α) → Option (Collection α) → Prop where
  | absent : Turn s id a none none
  | made (c : Collection α) (stale : c.stale = false) (rebuilds : c.rebuilds = 1)
      (version : c.version = 0) : Turn s id a none (some c)
  | kept (c c' : Collection α) (unread : s.reads id a = false) (bears : c.Bears c' (s.changes id a)) :
      Turn s id a (some c) (some c')
  | read (c c' : Collection α) (isRead : s.reads id a = true) (refreshed : c.Refreshed c') :
      Turn s id a (some c) (some c')

section Turn

variable {s s' : Supply α} {id : CollectionId} {c : Collection α}

theorem stale_of_read {e : Fault} (hc : s.collections[id]? = some c) (hlive : c.disposed = false)
    (h : (s.read id).1 = .error e) : c.stale = true := by
  by_contra hstale
  simp [read, hc, hlive, hstale] at h

theorem read_of_stale (hc : s.collections[id]? = some c) (hlive : c.disposed = false)
    (hstale : c.stale = true) : (s.read id).1 = s.merge c.members c.naming := by
  unfold read
  cases hmerge : s.merge c.members c.naming <;> simp [hc, hlive, hstale, hmerge]

theorem refreshed_of_read {ids : List ItemId} (h : (s.read id).1 = .ok ids) :
    ∃ c c', s.collections[id]? = some c ∧ (s.read id).2.collections[id]? = some c' ∧
      c.Refreshed c' := by
  unfold read at h ⊢
  cases hc : s.collections[id]? with
  | none => simp [hc] at h
  | some c =>
    have hlt : id < s.collections.length := (List.getElem?_eq_some_iff.1 hc).1
    cases hlive : c.disposed with
    | true => simp [hc, hlive] at h
    | false =>
      cases hstale : c.stale with
      | false => exact ⟨c, c, rfl, by simp [hlive, hstale, hc], rfl, rfl, by simp [hstale], hstale, rfl⟩
      | true =>
        cases hmerge : s.merge c.members c.naming with
        | error e => simp [hc, hlive, hstale, hmerge] at h
        | ok ids' =>
          refine ⟨c, { c with items := ids', stale := false, rebuilds := c.rebuilds + 1 }, rfl, ?_,
            rfl, rfl, by simp [hstale], rfl, rfl⟩
          simp [hlive, hstale, hmerge, hlt]

variable [Disposable α] {a : Action α}

theorem changes_eq {source : SourceId} (hc : s.collections[id]? = some c)
    (hchanged : s.changed a = some source) :
    s.changes id a = c.members.any (·.source = source) := by
  simp [changes, hc, hchanged]

theorem changes_of_unchanged (id : CollectionId) (hchanged : s.changed a = none) :
    s.changes id a = false := by
  cases hc : s.collections[id]? <;> simp [changes, hc, hchanged]

theorem Turn.of_map (hunread : s.reads id a = false) {g : Collection α → Collection α}
    (hmap : s'.collections[id]? = (s.collections[id]?).map g)
    (hbears : ∀ c, s.collections[id]? = some c → c.Bears (g c) (s.changes id a)) :
    s.Turn id a s.collections[id]? s'.collections[id]? := by
  rw [hmap]
  cases hc : s.collections[id]? with
  | none => exact .absent
  | some c => exact .kept c (g c) hunread (hbears c hc)

theorem Turn.of_same (hunread : s.reads id a = false) (hchanged : s.changed a = none)
    (hsame : s'.collections[id]? = s.collections[id]?) :
    s.Turn id a s.collections[id]? s'.collections[id]? := by
  refine .of_map hunread (g := fun c => c) (by simpa using hsame) fun c _ => ?_
  rw [changes_of_unchanged id hchanged]
  exact .refl c

theorem Turn.of_made (hunread : s.reads id a = false) (hchanged : s.changed a = none)
    (hmade : s'.collections = s.collections ++ [c]) (hstale : c.stale = false)
    (hrebuilds : c.rebuilds = 1) (hversion : c.version = 0) :
    s.Turn id a s.collections[id]? s'.collections[id]? := by
  by_cases hid : id < s.collections.length
  · exact .of_same hunread hchanged (by rw [hmade, List.getElem?_append_left hid])
  · have hnone : s.collections[id]? = none := List.getElem?_eq_none (Nat.not_lt.1 hid)
    rw [hmade, List.getElem?_append_right (Nat.not_lt.1 hid), hnone]
    cases id - s.collections.length with
    | zero => exact .made c hstale hrebuilds hversion
    | succ n => exact .absent

theorem Turn.of_told (source : SourceId) (hunread : s.reads id a = false)
    (hchanged : s.changed a = some source)
    (htold : s'.collections[id]? = (s.collections[id]?).map fun c =>
      if c.members.any (·.source = source) then c.spoiled else c) :
    s.Turn id a s.collections[id]? s'.collections[id]? := by
  refine .of_map hunread htold fun c hc => ?_
  rw [changes_eq hc hchanged]
  split
  · next hmember =>
    rw [hmember]
    exact .of_spoiled c
  · next hmember =>
    rw [Bool.eq_false_iff.2 hmember]
    exact .refl c

theorem perform_turn (s : Supply α) (id : CollectionId) (a : Action α) :
    s.Turn id a s.collections[id]? (s.perform a).collections[id]? := by
  cases a with
  | addSource items owns => exact .of_same rfl rfl rfl
  | addListener subject => exact .of_same rfl rfl rfl
  | collect members naming =>
    obtain hsame | ⟨ids, -, hmade⟩ := s.perform_collect_cases members naming
    · exact .of_same rfl rfl (by rw [hsame])
    · rw [hmade]
      exact .of_made rfl rfl rfl rfl rfl rfl
  | collectItems items owns => exact .of_made rfl rfl rfl rfl rfl rfl
  | replace source items =>
    cases hreplace : s.replace source items with
    | error e =>
      exact .of_same rfl (by simp [changed, hreplace, Except.toOption]) (by simp [perform, hreplace])
    | ok s' =>
      obtain ⟨record, t, hrecord, hsources, hcollections, -, hs'⟩ := replace_eq_ok hreplace
      have hperform : s.perform (.replace source items) = s' := by simp [perform, hreplace]
      have hlt : source < t.sources.length := by
        rw [hsources, List.length_set]
        exact (List.getElem?_eq_some_iff.1 hrecord).1
      refine .of_told source rfl (by simp [changed, hreplace, Except.toOption]) ?_
      rw [hperform, hs', collections_signal hlt, hcollections]
  | signal source =>
    by_cases hlt : source < s.sources.length
    · exact .of_told source rfl (by simp [changed, hlt]) (collections_signal hlt id)
    · have hsame : (s.signal source).2 = s := by
        simp [Supply.signal, List.getElem?_eq_none (Nat.not_lt.1 hlt)]
      exact .of_same rfl (by simp [changed, hlt]) (by rw [perform, hsame])
  | read i =>
    by_cases hi : i = id
    · subst hi
      cases hread : (s.read i).1 with
      | error e =>
        exact .of_same (by simp [reads, hread, Except.toOption]) rfl (by rw [perform, read_of_error hread])
      | ok ids =>
        obtain ⟨c, c', hc, hc', hrefreshed⟩ := refreshed_of_read hread
        rw [perform, hc, hc']
        exact .read c c' (by simp [reads, hread, Except.toOption]) hrefreshed
    · refine .of_same (by simp [reads, hi]) rfl ?_
      obtain hsame | ⟨c, ids, -, -, -, hread⟩ := s.read_cases i
      · rw [perform, hsame]
      · rw [perform, hread]
        exact List.getElem?_set_ne hi
  | disposeItem item => exact .of_same rfl rfl rfl
  | disposeSource source =>
    exact .of_same rfl rfl (by rw [perform, (s.disposeSource_sheds source).1])
  | disposeCollection i =>
    refine .of_map rfl (s.collections_disposeCollection i id) fun c _ => ?_
    rw [changes_of_unchanged id rfl]
    split
    · exact .of_closed c
    · exact .refl c

end Turn

/-! ### Runs -/

section Run

variable [Disposable α] {s : Supply α} {id : CollectionId} {c : Collection α}

/-- The invariant of runs: a collection owes one merge while it is stale, and none otherwise. -/
theorem owed_of_run (items : List α) (actions : List (Action α))
    (hc : (run items actions).collections[id]? = some c) :
    c.version + 1 = c.rebuilds + c.stale.toNat := by
  induction actions using List.reverseRecOn generalizing c with
  | nil => exact nomatch hc
  | append_singleton actions a ih =>
    have hturn := (run items actions).perform_turn id a
    rw [← run_append, hc] at hturn
    generalize hbefore : (run items actions).collections[id]? = before at hturn
    cases hturn with
    | made _ hstale hrebuilds hversion => simp [hstale, hrebuilds, hversion]
    | kept c₀ _ _ hbears =>
      have howed := ih hbefore
      rw [hbears.version, hbears.rebuilds, hbears.stale]
      cases hstale : c₀.stale <;> simp [hstale] at howed ⊢ <;> omega
    | read c₀ _ _ hrefreshed =>
      have howed := ih hbefore
      rw [hrefreshed.version, hrefreshed.rebuilds, hrefreshed.stale]
      simpa using howed

theorem fresh_iff (items : List α) (actions : List (Action α))
    (hc : (run items actions).collections[id]? = some c) :
    c.stale = false ↔ c.version + 1 = c.rebuilds := by
  have howed := owed_of_run items actions hc
  cases hstale : c.stale <;> simp [hstale] at howed ⊢ <;> omega

/-- Until the collection is read again, all the changes of its sources together count as one. -/
theorem bears_of_foldl (hc : s.collections[id]? = some c) (later : List (Action α))
    (hunread : tally (reads id) s later = 0) :
    ∃ c', (later.foldl perform s).collections[id]? = some c' ∧
      c.Bears c' (decide (0 < tally (changes id) s later)) := by
  induction later generalizing s c with
  | nil => exact ⟨c, hc, .refl c⟩
  | cons a rest ih =>
    obtain ⟨hfirst, hrest⟩ := Nat.add_eq_zero_iff.1 hunread
    have hturn := s.perform_turn id a
    rw [hc] at hturn
    generalize hafter : (s.perform a).collections[id]? = after at hturn
    cases hturn with
    | kept _ c₁ _ hbears =>
      obtain ⟨c', hc', hbears'⟩ := ih hafter hrest
      refine ⟨c', hc', ?_⟩
      have hcount : decide (0 < tally (changes id) s (a :: rest)) =
          (s.changes id a || decide (0 < tally (changes id) (s.perform a) rest)) := by
        cases hchange : s.changes id a <;> simp [tally, hchange]
      rw [hcount]
      exact hbears.trans hbears'
    | read _ c₁ hread _ => simp [hread] at hfirst

theorem made_of_perform {a : Action α} (hnone : s.collections[id]? = none)
    (hc : (s.perform a).collections[id]? = some c) : c.version = 0 ∧ c.rebuilds = 1 := by
  have hturn := s.perform_turn id a
  rw [hnone, hc] at hturn
  cases hturn with
  | made _ _ hrebuilds hversion => exact ⟨hversion, hrebuilds⟩

/-- What changes cost. The version of a collection is the number of its merges or one less, and one
less when it is made or read: so no merge is owed then. From there on, all changes of its sources up
to the next successful read are one new version and one more merge; without a change there is
neither. A read that fails changes nothing, and until one succeeds each read merges again. A
replacement that fails changes nothing. A listener hears each version after it came, once and in
order. -/
theorem counted_of_run (items : List α) (actions : List (Action α)) (id : CollectionId) :
    let s := run items actions
    (∀ c, s.collections[id]? = some c → c.rebuilds ≤ c.version + 1 ∧ c.version ≤ c.rebuilds) ∧
    (∀ a c, s.collections[id]? = none → (s.perform a).collections[id]? = some c →
      c.version = 0 ∧ c.rebuilds = 1) ∧
    (∀ ids, (s.read id).1 = .ok ids →
      ∃ c, (s.read id).2.collections[id]? = some c ∧ c.version + 1 = c.rebuilds) ∧
    (∀ c, s.collections[id]? = some c → c.version + 1 = c.rebuilds →
      ∀ later, tally (reads id) s later = 0 →
        let s' := later.foldl perform s
        let burst := min 1 (tally (changes id) s later)
        ∃ c', s'.collections[id]? = some c' ∧ c'.version = c.version + burst ∧
          c'.rebuilds = c.rebuilds ∧ ∀ ids, (s'.read id).1 = .ok ids →
            ∃ c'', (s'.read id).2.collections[id]? = some c'' ∧ c''.version = c.version + burst ∧
              c''.rebuilds = c.rebuilds + burst) ∧
    (∀ e, (s.read id).1 = .error e → (s.read id).2 = s ∧
      ∀ c, s.collections[id]? = some c → c.disposed = false →
        ∀ later, tally (reads id) s later = 0 →
          let s' := later.foldl perform s
          ∃ c', s'.collections[id]? = some c' ∧ c'.version = c.version ∧
            c'.rebuilds = c.rebuilds ∧ (c'.disposed = false →
              c'.items = c.items ∧ (s'.read id).1 = s'.merge c.members c.naming)) ∧
    (∀ source next e, s.replace source next = .error e → s.perform (.replace source next) = s) ∧
    ∀ (subject : Subject) (later : List (Action α)),
      let s' := run items (actions ++ .addListener subject :: later)
      s'.listeners[s.listeners.length]? =
        some ⟨subject, versionsSince (s.versionOf subject) (s'.versionOf subject)⟩ := by
  intro s
  refine ⟨fun c hc => ?_, fun a c hnone hc => made_of_perform hnone hc, fun ids hread => ?_,
    fun c hc hsettled later hunread => ?_, fun e hread => ⟨read_of_error hread, ?_⟩,
    fun source next e hreplace => by simp [perform, hreplace], fun subject later => ?_⟩
  · have howed := owed_of_run items actions hc
    have hone : c.stale.toNat ≤ 1 := Bool.toNat_le c.stale
    omega
  · obtain ⟨_, c, -, hc, hrefreshed⟩ := refreshed_of_read hread
    have hrun : (s.read id).2 = run items (actions ++ [.read id]) :=
      (run_append items actions (.read id)).symm
    rw [hrun] at hc ⊢
    exact ⟨c, hc, (fresh_iff items _ hc).1 hrefreshed.stale⟩
  · have hfresh : c.stale = false := (fresh_iff items actions hc).2 hsettled
    obtain ⟨c', hc', hbears⟩ := bears_of_foldl hc later hunread
    have hburst : (decide (0 < tally (changes id) s later)).toNat =
        min 1 (tally (changes id) s later) := by
      by_cases hsome : 0 < tally (changes id) s later
      · simp [hsome, Nat.min_eq_left hsome]
      · simp [Nat.eq_zero_of_not_pos hsome]
    have hversion : c'.version = c.version + min 1 (tally (changes id) s later) := by
      rw [hbears.version, hfresh, ← hburst]
      rfl
    refine ⟨c', hc', hversion, hbears.rebuilds, fun ids hread => ?_⟩
    obtain ⟨c₁, c'', hc₁, hc'', hrefreshed⟩ := refreshed_of_read hread
    obtain rfl : c' = c₁ := Option.some.inj (hc'.symm.trans hc₁)
    refine ⟨c'', hc'', hrefreshed.version.trans hversion, ?_⟩
    rw [hrefreshed.rebuilds, hbears.rebuilds, hbears.stale, hfresh, Bool.false_or, hburst]
  · intro c hc hlive later hunread
    have hstale : c.stale = true := stale_of_read hc hlive hread
    obtain ⟨c', hc', hbears⟩ := bears_of_foldl hc later hunread
    refine ⟨c', hc', by simp [hbears.version, hstale], hbears.rebuilds, fun hlive' => ⟨?_, ?_⟩⟩
    · exact (hbears.items hlive').1
    · rw [read_of_stale hc' hlive' (by simp [hbears.stale, hstale]), hbears.members, hbears.naming]
  · have hrun : run items (actions ++ .addListener subject :: later) =
        later.foldl perform (s.perform (.addListener subject)) := by
      rw [← foldl_run]
      rfl
    intro s'
    have hs' : s' = later.foldl perform (s.perform (.addListener subject)) := hrun
    rw [hs']
    exact heard_of_foldl s subject later

end Run

/-! ### A burst of changes -/

/-- Two replacements and a signal cost one version and one merge. When a source is gone the next read
fails and the collection stays as it is. A listener that came before the burst hears one version. -/
theorem counted_of_run_burst :
    let keys := [namedKey, namelessKey]
    let start : List (Action SecretKey) := [.addSource [0] true, .addSource [1] false,
      .collect [⟨0, true⟩, ⟨1, false⟩] none]
    let burst : List (Action SecretKey) := [.replace 0 [1], .replace 1 [], .signal 0]
    let loss : List (Action SecretKey) := start ++ [.replace 0 [1], .disposeSource 1]
    (tally (reads 0) (run keys start) burst = 0 ∧ tally (changes 0) (run keys start) burst = 3 ∧
      ((burst.foldl perform (run keys start)).read 0).1 = .ok [1] ∧
      ∃ c, ((burst.foldl perform (run keys start)).read 0).2.collections[0]? = some c ∧
        c.version = 1 ∧ c.rebuilds = 2) ∧
    (((run keys loss).read 0).1 = .error (.disposed .dataSource) ∧
      ((run keys loss).read 0).2 = run keys loss) ∧
    ((run keys loss).replace 1 [0] = .error (.disposed .dataSource) ∧
      (run keys loss).perform (.replace 1 [0]) = run keys loss) ∧
    (run keys (start ++ .addListener (.collection 0) :: burst)).listeners[0]? =
      some ⟨.collection 0, [1]⟩ := by
  intro keys start burst loss
  obtain ⟨-, -, -, hburst, -, -, hheard⟩ := counted_of_run keys start 0
  obtain ⟨-, -, -, -, hfailed, hrefused, -⟩ := counted_of_run keys loss 0
  have hunread : tally (reads 0) (run keys start) burst = 0 := by decide
  have hcount : tally (changes 0) (run keys start) burst = 3 := by decide
  have hread : ((burst.foldl perform (run keys start)).read 0).1 = .ok [1] := by decide
  have hlost : ((run keys loss).read 0).1 = .error (.disposed .dataSource) := by decide
  have hgone : (run keys loss).replace 1 [0] = .error (.disposed .dataSource) := rfl
  have hmade : ∃ c, (run keys start).collections[0]? = some c ∧ c.version = 0 ∧ c.rebuilds = 1 :=
    ⟨_, rfl, rfl, rfl⟩
  refine ⟨⟨hunread, hcount, hread, ?_⟩, ⟨hlost, (hfailed _ hlost).1⟩,
    ⟨hgone, hrefused 1 [0] _ hgone⟩, ?_⟩
  · obtain ⟨c, hc, hversion, hrebuilds⟩ := hmade
    obtain ⟨c', -, -, -, hafter⟩ := hburst c hc (by rw [hversion, hrebuilds]) burst hunread
    obtain ⟨c'', hc'', hversion', hrebuilds'⟩ := hafter _ hread
    rw [hversion, hcount] at hversion'
    rw [hrebuilds, hcount] at hrebuilds'
    exact ⟨c'', hc'', hversion', hrebuilds'⟩
  · have hversions : versionsSince ((run keys start).versionOf (.collection 0))
        ((run keys (start ++ .addListener (.collection 0) :: burst)).versionOf
          (.collection 0)) = [1] := by decide
    rw [← hversions]
    exact hheard (.collection 0) burst

end Supply

end TokenSeal
