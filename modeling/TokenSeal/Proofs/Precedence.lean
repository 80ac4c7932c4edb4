import TokenSeal.Proofs.Binding
import TokenSeal.Proofs.CollectionReads

/-! Which algorithm a code names in a registry that has the built-in ones in front. A built-in code
names the built-in algorithm, whatever the further sources hold, and any other code names what the
earliest of them offers. -/

namespace TokenSeal

namespace Algorithm

/-! ### Codes within a family -/

theorem familyCode_eq_iff (a : Algorithm) (family : Family) (code : String) :
    a.familyCode = family.name ++ ":" ++ code ↔ a.isNamed family code = true := by
  -- No two families begin with the same letter, so neither name with its colon begins the other.
  have hfamily : ∀ f g : Family, ∀ x y : String,
      f.name ++ ":" ++ x = g.name ++ ":" ++ y → f = g := by
    intro f g x y h
    have hletters := congrArg (fun s => s.toList.head?) h
    cases f <;> cases g <;> first | rfl | simp [Family.name] at hletters
  rw [familyCode, isNamed, Bool.and_eq_true, decide_eq_true_eq, decide_eq_true_eq]
  constructor
  · intro h
    have hsame : a.family = family := hfamily _ _ _ _ h
    rw [hsame] at h
    exact ⟨hsame, by simpa using h⟩
  · rintro ⟨hsame, hcode⟩
    rw [hsame, hcode]

section Known

variable {known : List Algorithm} {family : Family} {code : String} {a b : Algorithm}

theorem isNamed_iff : a.isNamed family code = true ↔ a.family = family ∧ a.code = code := by
  simp [isNamed]

theorem find_eq_ok_iff_find? :
    find known family code = .ok a ↔ known.find? (·.isNamed family code) = some a := by
  unfold find
  cases known.find? (·.isNamed family code) <;> simp

theorem mem_codes : code ∈ codes known family ↔ ∃ a ∈ known, a.isNamed family code = true := by
  simp only [codes, List.mem_map, List.mem_filter, decide_eq_true_eq, isNamed_iff, and_assoc]

theorem mem_codes_iff_find : code ∈ codes known family ↔ ∃ a, find known family code = .ok a := by
  simp only [mem_codes, find_eq_ok_iff_find?, ← Option.isSome_iff_exists, List.find?_isSome]

theorem codes_isPrefix {all : List Algorithm} (h : known <+: all) :
    codes known family <+: codes all family :=
  (h.filter _).map _

variable (hnames : (known.map familyCode).Nodup)
include hnames

theorem eq_of_isNamed (ha : a ∈ known) (hb : b ∈ known) (hacode : a.isNamed family code = true)
    (hbcode : b.isNamed family code = true) : a = b := by
  have hsame : a.familyCode = b.familyCode :=
    ((familyCode_eq_iff a family code).2 hacode).trans
      ((familyCode_eq_iff b family code).2 hbcode).symm
  exact List.inj_on_of_nodup_map hnames ha hb hsame

theorem find_eq_ok_iff :
    find known family code = .ok a ↔ a ∈ known ∧ a.isNamed family code = true := by
  constructor
  · intro h
    obtain ⟨hmem, hnamed⟩ := find_eq_ok h
    exact ⟨hmem, isNamed_iff.2 hnamed⟩
  · rintro ⟨hmem, hnamed⟩
    obtain ⟨b, hb⟩ := mem_codes_iff_find.1 (mem_codes.2 ⟨a, hmem, hnamed⟩)
    obtain ⟨hbmem, hbnamed⟩ := find_eq_ok hb
    rw [hb, eq_of_isNamed hnames hmem hbmem hnamed (isNamed_iff.2 hbnamed)]

theorem findForKeyType_eq_ok_iff {t : KeyType} :
    findForKeyType known family code t = .ok a ↔
      find known family code = .ok a ∧ a.keyType = t := by
  have hfind : findForKeyType known family code t = .ok a ↔
      known.find? (fun a => a.isNamed family code && a.accepts t) = some a := by
    unfold findForKeyType
    cases known.find? fun a => a.isNamed family code && a.accepts t <;> simp
  rw [hfind, find_eq_ok_iff hnames]
  constructor
  · intro h
    have hboth := List.find?_some h
    simp only [Bool.and_eq_true, accepts, decide_eq_true_eq] at hboth
    exact ⟨⟨List.mem_of_find?_eq_some h, hboth.1⟩, hboth.2⟩
  · rintro ⟨⟨hmem, hnamed⟩, ht⟩
    have hsome : (known.find? fun a => a.isNamed family code && a.accepts t).isSome = true :=
      List.find?_isSome.2 ⟨a, hmem, by simp [hnamed, accepts, ht]⟩
    obtain ⟨b, hb⟩ := Option.isSome_iff_exists.1 hsome
    have hboth := List.find?_some hb
    rw [Bool.and_eq_true] at hboth
    rw [hb, eq_of_isNamed hnames hmem (List.mem_of_find?_eq_some hb) hnamed hboth.1]

theorem nodup_codes : (codes known family).Nodup := by
  refine List.Nodup.map_on ?_ (hnames.of_map.filter _)
  intro a ha b hb hcode
  rw [List.mem_filter, decide_eq_true_eq] at ha hb
  exact eq_of_isNamed hnames ha.1 hb.1 (isNamed_iff.2 ⟨ha.2, hcode⟩) (isNamed_iff.2 ⟨hb.2, rfl⟩)

end Known

theorem nodup_builtin : (builtin.map familyCode).Nodup := by decide +kernel

end Algorithm

namespace Supply

/-! ### The first of each name -/

section Names

variable {nameOf : ItemId → String} {seen : List String} {ids : List ItemId}

theorem find?_firstOfEach {p : ItemId → Bool} {name : String}
    (hp : ∀ i, p i = true ↔ nameOf i = name) (hseen : name ∉ seen) (ids : List ItemId) :
    (firstOfEach nameOf seen ids).find? p = ids.find? p := by
  induction ids generalizing seen with
  | nil => rfl
  | cons i rest ih =>
    by_cases hpi : p i = true
    · have hnew : nameOf i ∉ seen := (hp i).1 hpi ▸ hseen
      rw [firstOfEach, if_neg hnew, List.find?_cons_of_pos hpi, List.find?_cons_of_pos hpi]
    · rw [firstOfEach, List.find?_cons_of_neg hpi]
      by_cases hi : nameOf i ∈ seen
      · rw [if_pos hi, ih hseen]
      · have hother : name ∉ nameOf i :: seen := by
          rw [List.mem_cons, not_or]
          exact ⟨fun h => hpi ((hp i).2 h.symm), hseen⟩
        rw [if_neg hi, List.find?_cons_of_neg hpi, ih hother]

theorem names_firstOfEach (nameOf : ItemId → String) (seen : List String) (ids : List ItemId) :
    ((firstOfEach nameOf seen ids).map nameOf).Nodup ∧
      ∀ i ∈ firstOfEach nameOf seen ids, nameOf i ∉ seen := by
  induction ids generalizing seen with
  | nil => exact ⟨.nil, fun _ hi => nomatch hi⟩
  | cons i rest ih =>
    by_cases hi : nameOf i ∈ seen
    · rw [firstOfEach, if_pos hi]
      exact ih seen
    · obtain ⟨hnodup, hnew⟩ := ih (nameOf i :: seen)
      rw [firstOfEach, if_neg hi, List.map_cons, List.nodup_cons, List.forall_mem_cons]
      refine ⟨⟨?_, hnodup⟩, hi, fun j hj hseen => hnew j hj (List.mem_cons_of_mem _ hseen)⟩
      intro hagain
      obtain ⟨j, hj, hname⟩ := List.mem_map.1 hagain
      exact hnew j hj (hname ▸ List.mem_cons_self)

theorem isPrefix_firstOfEach (hnodup : (ids.map nameOf).Nodup) (hnew : ∀ i ∈ ids, nameOf i ∉ seen)
    (rest : List ItemId) : ids <+: firstOfEach nameOf seen (ids ++ rest) := by
  induction ids generalizing seen with
  | nil => exact List.nil_prefix
  | cons i ids ih =>
    rw [List.map_cons, List.nodup_cons] at hnodup
    obtain ⟨hi, hids⟩ := List.forall_mem_cons.1 hnew
    have hlater : ∀ j ∈ ids, nameOf j ∉ nameOf i :: seen := by
      intro j hj hseen
      rcases List.mem_cons.1 hseen with hsame | hold
      · exact hnodup.1 (hsame ▸ List.mem_map_of_mem hj)
      · exact hids j hj hold
    rw [List.cons_append, firstOfEach, if_neg hi, List.prefix_cons_inj]
    exact ih hnodup.2 hlater

end Names

/-! ### What a registry joins -/

section Joined

variable {s s' : Supply Algorithm} {family : Family} {code : String}

theorem joined_some (s : Supply Algorithm) (ids : List ItemId) :
    s.joined (some Algorithm.familyCode) ids = firstOfEach (s.nameIn Algorithm.familyCode) [] ids :=
  (firstOfEach_eq _ _).symm

theorem map_lookup_sublist (s : Supply Algorithm) (f : Algorithm → String) (ids : List ItemId) :
    ((s.lookup ids).map f).Sublist (ids.map (s.nameIn f)) := by
  induction ids with
  | nil => exact .slnil
  | cons i rest ih =>
    rw [Supply.lookup, List.filterMap_cons, List.map_cons]
    cases hi : s.items[i]? with
    | none => exact .cons _ ih
    | some a =>
      have hname : s.nameIn f i = f a := by simp [nameIn, hi]
      rw [hname]
      exact .cons_cons _ ih

theorem nodup_lookup_joined (s : Supply Algorithm) (ids : List ItemId) :
    ((s.lookup (s.joined (some Algorithm.familyCode) ids)).map Algorithm.familyCode).Nodup := by
  rw [joined_some]
  exact (names_firstOfEach _ _ ids).1.sublist (s.map_lookup_sublist _ _)

/-- An item that is not there has no name, and no algorithm is without one. -/
theorem isNamed_iff_nameIn (s : Supply Algorithm) (family : Family) (code : String) (i : ItemId) :
    (s.items[i]?).any (·.isNamed family code) = true ↔
      s.nameIn Algorithm.familyCode i = family.name ++ ":" ++ code := by
  rw [nameIn]
  cases s.items[i]? with
  | none =>
    have hempty : "" ≠ family.name ++ ":" ++ code := by
      intro h
      have hlength := congrArg String.length h
      have hcolon : ":".length = 1 := rfl
      simp only [String.length_append, String.length_empty] at hlength
      omega
    simp [hempty]
  | some a => exact (Algorithm.familyCode_eq_iff a family code).symm

theorem find?_lookup_joined (s : Supply Algorithm) (ids : List ItemId) :
    (s.lookup (s.joined (some Algorithm.familyCode) ids)).find? (·.isNamed family code) =
      (s.lookup ids).find? (·.isNamed family code) := by
  rw [Supply.lookup, Supply.lookup, List.find?_filterMap, List.find?_filterMap, joined_some,
    find?_firstOfEach (s.isNamed_iff_nameIn family code) List.not_mem_nil]

end Joined

/-! ### The registry through a run -/

/-- The first algorithm so named that the sources hold, in the order of the sources. -/
def offered (s : Supply Algorithm) (sources : List SourceId) (family : Family) (code : String) :
    Option Algorithm :=
  sources.findSome? fun id => (s.lookup (s.held id)).find? (·.isNamed family code)

/-- The collection is over the built-in algorithms, in a source of their own, and over further
sources. Unless it is stale or disposed of it has the first algorithm of each family and code. -/
structure Leads (s : Supply Algorithm) (own : SourceId) (extra : List SourceId) (id : CollectionId) :
    Prop where
  builtin : (s.held own).map (s.items[·]?) = Algorithm.builtin.map some
  collection : ∃ c, s.collections[id]? = some c ∧ c.members = (own :: extra).map (⟨·, true⟩) ∧
    c.naming = some Algorithm.familyCode ∧ (∀ m ∈ c.members, m.source < s.sources.length) ∧
    (c.disposed = false → c.stale = false →
      c.items = s.joined c.naming (s.heldBy c.members))

section Registry

variable {s s' s₀ s₁ : Supply Algorithm} {own : SourceId} {extra : List SourceId}
  {id : CollectionId} {a : Action Algorithm}

theorem lookup_heldBy (s : Supply Algorithm) (sources : List SourceId) :
    s.lookup (s.heldBy (sources.map (⟨·, true⟩))) = sources.flatMap fun i => s.lookup (s.held i) := by
  rw [heldBy, List.flatMap_map, lookup, List.filterMap_flatMap]
  rfl

/-- Algorithms are not used up. -/
theorem Ages.items_eq (h : s.Ages s') : s'.items = s.items := by
  refine List.ext_getElem? fun i => ?_
  obtain ⟨n, hn⟩ := h i
  have hdispose : (Disposable.dispose : Algorithm → Algorithm) = fun a => a := rfl
  have hiterate : (Disposable.dispose : Algorithm → Algorithm)^[n] = fun a => a := by
    rw [hdispose]
    exact Function.iterate_id n
  rw [hn, hiterate, Option.map_id']

theorem Leads.own_lt (h : s.Leads own extra id) : own < s.sources.length := by
  obtain ⟨c, -, hmembers, -, hknown, -⟩ := h.collection
  exact hknown ⟨own, true⟩ (by simp [hmembers])

theorem Leads.perform (h : s.Leads own extra id) (ha : ∀ items, a ≠ .replace own items) :
    (s.perform a).Leads own extra id := by
  have heffect := s.perform_effect a
  obtain ⟨c, hc, hmembers, hnaming, hknown, hitems⟩ := h.collection
  obtain ⟨c', hc', hmembers', hnaming'⟩ := heffect.lasts hc
  refine ⟨?_, c', hc', hmembers'.trans hmembers, hnaming'.trans hnaming, fun m hm => ?_, ?_⟩
  · rw [held_perform h.own_lt ha, heffect.ages.items_eq]
    exact h.builtin
  · exact Nat.lt_of_lt_of_le (hknown m (hmembers' ▸ hm)) heffect.length_le
  · intro hlive hfresh
    obtain hbuilds | ⟨c₀, hc₀, hkeeps⟩ := heffect.builds_or_keeps hc'
    · exact hbuilds.joins
    · obtain rfl : c = c₀ := Option.some.inj (hc.symm.trans hc₀)
      obtain ⟨hsame, hlive₀⟩ := hkeeps.items hlive
      have hjoined := hitems hlive₀ (hkeeps.fresh hfresh).1
      rw [hsame, hjoined, hkeeps.heldBy hfresh hknown, hnaming',
        joined_of_ages heffect.ages fun f _ a => rfl]

theorem Leads.foldl (h : s.Leads own extra id) {later : List (Action Algorithm)}
    (hlater : ∀ items, .replace own items ∉ later) :
    (later.foldl Supply.perform s).Leads own extra id := by
  induction later generalizing s with
  | nil => exact h
  | cons a rest ih =>
    have ha : ∀ items, a ≠ .replace own items := fun items heq => hlater items (heq ▸ .head _)
    exact ih (h.perform ha) fun items hmem => hlater items (.tail _ hmem)

theorem map_addItems {β : Type} (s : Supply β) (items : List β) :
    (s.addItems items).1.map ((s.addItems items).2.items[·]?) = items.map some := by
  rw [addItems, List.map_map]
  refine List.ext_getElem (by simp) fun i hi hi' => ?_
  have hlater : (s.items ++ items)[s.items.length + i]? = items[i]? := by
    rw [List.getElem?_append_right (Nat.le_add_right _ _), Nat.add_sub_cancel_left]
  simp [hlater]

theorem leads_of_registryWith (h : s₀.registryWith extra = .ok (id, s₁)) :
    s₁.Leads s₀.sources.length extra id := by
  obtain ⟨items, hmerge, h⟩ := bind_eq_ok.1 h
  cases h
  obtain ⟨hjoined, hknown⟩ := merge_eq_ok hmerge
  constructor
  · have hheld := ((s₀.addItems Algorithm.builtin).2.held_addSource
      (s₀.addItems Algorithm.builtin).1 true s₀.sources.length).trans (if_pos rfl)
    exact (congrArg _ hheld).trans (s₀.map_addItems Algorithm.builtin)
  · exact ⟨_, List.getElem?_concat_length, rfl, rfl, hknown, fun _ _ => hjoined⟩

theorem algorithms_eq_ok {known : List Algorithm} (h : (s.algorithms id).1 = .ok known) :
    ∃ ids, (s.read id).1 = .ok ids ∧ known = s.lookup ids := by
  have hread : (s.read id).1.map (s.read id).2.lookup = .ok known := h
  obtain ⟨ids, hids, hknown⟩ := map_eq_ok.1 hread
  refine ⟨ids, hids, hknown.symm.trans ?_⟩
  rw [lookup, lookup, (s.read_frame id).1]

theorem Leads.known_eq (h : s.Leads own extra id) {known : List Algorithm}
    (hknown : (s.algorithms id).1 = .ok known) :
    known = s.lookup (s.joined (some Algorithm.familyCode)
      (s.heldBy ((own :: extra).map (⟨·, true⟩)))) := by
  have hread : (s.read id).2.Leads own extra id :=
    h.perform (a := .read id) fun _ heq => nomatch heq
  obtain ⟨hitems, hsources⟩ := s.read_frame id
  obtain ⟨ids, hids, rfl⟩ := algorithms_eq_ok hknown
  obtain ⟨c, hc, rfl, hfresh, hlive⟩ := read_eq_ok hids
  obtain ⟨c', hc', hmembers, hnaming, -, hjoined⟩ := hread.collection
  obtain rfl : c = c' := Option.some.inj (hc.symm.trans hc')
  have hheld : (s.read id).2.heldBy c.members = s.heldBy c.members := by
    simp only [heldBy, held, hsources]
  rw [hjoined hlive hfresh, hheld, hmembers, hnaming,
    joined_of_ages (.of_items hitems) fun _ _ _ => rfl]

theorem Leads.lookup_held (h : s.Leads own extra id) :
    s.lookup (s.held own) = Algorithm.builtin := by
  have hmap := congrArg (List.filterMap fun a : Option Algorithm => a) h.builtin
  rw [List.filterMap_map, List.filterMap_map] at hmap
  exact hmap.trans List.filterMap_some

/-- The built-in algorithms come first, each with a name of its own. -/
theorem Leads.builtin_isPrefix (h : s.Leads own extra id) :
    Algorithm.builtin <+: s.lookup (s.joined (some Algorithm.familyCode)
      (s.heldBy ((own :: extra).map (⟨·, true⟩)))) := by
  have hnames : (s.held own).map (s.nameIn Algorithm.familyCode) =
      Algorithm.builtin.map Algorithm.familyCode := by
    have hmap := congrArg (List.map fun a => a.elim "" Algorithm.familyCode) h.builtin
    rw [List.map_map, List.map_map] at hmap
    exact hmap
  have hnodup : ((s.held own).map (s.nameIn Algorithm.familyCode)).Nodup :=
    hnames ▸ Algorithm.nodup_builtin
  have hfirst := isPrefix_firstOfEach hnodup (fun _ _ => List.not_mem_nil)
    (s.heldBy (extra.map (⟨·, true⟩)))
  rw [← joined_some] at hfirst
  exact h.lookup_held ▸ hfirst.filterMap _

theorem Leads.find?_eq (h : s.Leads own extra id) (family : Family) (code : String) :
    (s.lookup (s.joined (some Algorithm.familyCode)
      (s.heldBy ((own :: extra).map (⟨·, true⟩))))).find? (·.isNamed family code) =
        (Algorithm.builtin.find? (·.isNamed family code)).or (s.offered extra family code) := by
  rw [find?_lookup_joined, lookup_heldBy, List.flatMap_cons, List.find?_append, h.lookup_held,
    List.find?_flatMap, offered]

/-- Whatever happens to the further sources, a registry finds the built-in algorithm for each of its
codes, and for any other code the one that the earliest of these sources offers. It lists each code
of a family once, the built-in ones first. A lookup for a type of key finds the algorithm that a
lookup without it finds, if that takes keys of the type. The source of the built-in algorithms is the
registry's own, so that nothing else replaces what it holds. -/
theorem find_of_registryWith (h : s₀.registryWith extra = .ok (id, s₁))
    {later : List (Action Algorithm)} (hlater : ∀ items, .replace s₀.sources.length items ∉ later) :
    let s := later.foldl Supply.perform s₁
    ∀ known, (s.algorithms id).1 = .ok known →
      (∀ a ∈ Algorithm.builtin, Algorithm.find known a.family a.code = .ok a) ∧
      (∀ family, (Algorithm.codes known family).Nodup ∧
        Algorithm.codes Algorithm.builtin family <+: Algorithm.codes known family ∧
        ∀ code, code ∈ Algorithm.codes known family ↔
          code ∈ Algorithm.codes Algorithm.builtin family ∨ (s.offered extra family code).isSome) ∧
      (∀ family, ∀ code ∉ Algorithm.codes Algorithm.builtin family, ∀ a,
        Algorithm.find known family code = .ok a ↔ s.offered extra family code = some a) ∧
      ∀ family code t a, Algorithm.findForKeyType known family code t = .ok a ↔
        Algorithm.find known family code = .ok a ∧ a.keyType = t := by
  intro s known hknown
  have hleads : s.Leads s₀.sources.length extra id := (leads_of_registryWith h).foldl hlater
  obtain rfl := hleads.known_eq hknown
  have hnames := s.nodup_lookup_joined (s.heldBy ((s₀.sources.length :: extra).map (⟨·, true⟩)))
  have hbuiltin := hleads.builtin_isPrefix
  have hfind := hleads.find?_eq
  set known := s.lookup (s.joined (some Algorithm.familyCode)
    (s.heldBy ((s₀.sources.length :: extra).map (⟨·, true⟩))))
  refine ⟨fun a ha => ?_, fun family => ⟨Algorithm.nodup_codes hnames,
    Algorithm.codes_isPrefix hbuiltin, fun code => ?_⟩, fun family code hcode a => ?_,
    fun family code t a => Algorithm.findForKeyType_eq_ok_iff hnames⟩
  · exact (Algorithm.find_eq_ok_iff hnames).2
      ⟨hbuiltin.subset ha, Algorithm.isNamed_iff.2 ⟨rfl, rfl⟩⟩
  · simp only [Algorithm.mem_codes_iff_find, Algorithm.find_eq_ok_iff_find?, hfind,
      ← Option.isSome_iff_exists, Option.isSome_or, Bool.or_eq_true]
  · have hnone : Algorithm.builtin.find? (·.isNamed family code) = none := by
      simpa only [Algorithm.mem_codes_iff_find, Algorithm.find_eq_ok_iff_find?,
        ← Option.isSome_iff_exists, Option.not_isSome_iff_eq_none] using hcode
    rw [Algorithm.find_eq_ok_iff_find?, hfind, hnone, Option.none_or]

end Registry

/-- One source offers another algorithm for a built-in code, and both offer one for a code of their
own. It is the one of the earlier source that is found, also when that source is gone. -/
theorem find_of_registryWith_shadow :
    let early := Algorithm.hmac "a:b" .sha256
    let late := Algorithm.hmac "a:b" .sha512
    let s₀ := run [Algorithm.hmac "HS256" .sha512, early, late]
      [.addSource [] true, .addSource [2] true]
    let later : List (Action Algorithm) := [.replace 0 [0, 1], .read 0, .disposeSource 0]
    ∃ s₁ known, s₀.registryWith [0, 1] = .ok (0, s₁) ∧
      ((later.foldl Supply.perform s₁).algorithms 0).1 = .ok known ∧
      Algorithm.find known .signature "HS256" = .ok (Algorithm.hmac "HS256" .sha256) ∧
      Algorithm.find known .signature "a:b" = .ok early ∧
      Algorithm.findForKeyType known .signature "a:b" .symmetric = .ok early ∧
      Algorithm.findForKeyType known .signature "a:b" .rsa ≠ .ok early := by
  intro early late s₀ later
  have hlater : ∀ items, Action.replace s₀.sources.length items ∉ later := by
    intro items hmem
    simp [later, s₀, run, Supply.perform, addSource] at hmem
  have hrun : (s₀.registryWith [0, 1]).toOption.any (fun made =>
      made.1 = 0 ∧ ((later.foldl Supply.perform made.2).algorithms 0).1.toOption.isSome ∧
        (later.foldl Supply.perform made.2).offered [0, 1] .signature "a:b" = some early) = true := by
    decide +kernel
  cases hmade : s₀.registryWith [0, 1] with
  | error e =>
    rw [hmade] at hrun
    cases hrun
  | ok made =>
    obtain ⟨id, s₁⟩ := made
    rw [hmade] at hrun
    obtain ⟨rfl, hread, hoffered⟩ := of_decide_eq_true hrun
    cases hknown : ((later.foldl Supply.perform s₁).algorithms 0).1 with
    | error e =>
      rw [hknown] at hread
      cases hread
    | ok known =>
      obtain ⟨hbuiltin, -, hother, htype⟩ := find_of_registryWith hmade hlater known hknown
      have hearly := (hother .signature "a:b" (by decide +kernel) early).2 hoffered
      refine ⟨s₁, known, rfl, hknown,
        hbuiltin (Algorithm.hmac "HS256" .sha256) (by decide +kernel), hearly,
        (htype _ _ _ _).2 ⟨hearly, rfl⟩, fun h => ?_⟩
      cases ((htype _ _ _ _).1 h).2

end Supply

end TokenSeal
