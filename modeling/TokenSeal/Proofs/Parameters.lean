import TokenSeal.Proofs.Header

/-! Key management parameters are read from a header as they were put in, and so is a key that
is one of them. -/

namespace TokenSeal

/-! ### Members that may be missing -/

namespace Fields

/-- What is given for a member that may be missing. -/
def slotOf : Option Json → Slot
  | some v => .given v
  | none => .absent

/-- The members that are there. -/
def present (entries : List (String × Option Json)) : Members :=
  entries.flatMap fun e => (e.2.map fun v => (e.1, v)).toList

theorem present_cons (e : String × Option Json) (rest : List (String × Option Json)) :
    present (e :: rest) = (e.2.map fun v => (e.1, v)).toList ++ present rest := rfl

theorem names_present_sublist (entries : List (String × Option Json)) :
    List.Sublist (Members.names (present entries)) (entries.map (·.1)) := by
  induction entries with
  | nil => exact List.Sublist.slnil
  | cons e rest ih =>
    obtain ⟨name, _ | v⟩ := e
    · exact ih.cons name
    · exact ih.cons_cons name

theorem filter_present {name : String} (entries : List (String × Option Json))
    (h : name ∉ entries.map (·.1)) : (present entries).filter (·.1 = name) = [] := by
  rw [List.filter_eq_nil_iff]
  intro m hm
  have hname := (names_present_sublist entries).subset (List.mem_map_of_mem hm)
  rw [decide_eq_true_eq]
  rintro rfl
  exact h hname

/-- What holds of all values of an object holds of the object. -/
theorem whole_present {entries : List (String × Option Json)} {n : Nat}
    (h : ∀ e ∈ entries, ∀ v, e.2 = some v → v.IsWhole ∧ v.depth ≤ n) :
    Json.MembersWhole (present entries) ∧ Json.membersDepth (present entries) ≤ n := by
  induction entries with
  | nil => exact ⟨trivial, Nat.zero_le n⟩
  | cons e rest ih =>
    obtain ⟨hwhole, hdepth⟩ := ih fun e he => h e (by simp [he])
    obtain ⟨name, _ | v⟩ := e
    · exact ⟨hwhole, hdepth⟩
    · obtain ⟨hv, hd⟩ := h (name, some v) (by simp) v rfl
      exact ⟨⟨hv, hwhole⟩, max_le hd hdepth⟩

theorem pick?_present {entries : List (String × Option Json)} (hnd : (entries.map (·.1)).Nodup)
    {e : String × Option Json} (he : e ∈ entries) :
    pick? ((present entries).map fun m => (m.1, some m.2)) e.1 = some (slotOf e.2) := by
  have hfilter : (present entries).filter (·.1 = e.1) = (e.2.map fun v => (e.1, v)).toList := by
    induction entries with
    | nil => simp at he
    | cons first rest ih =>
      rw [List.map_cons, List.nodup_cons] at hnd
      rw [present_cons, List.filter_append]
      rcases List.mem_cons.1 he with rfl | he
      · rw [filter_present rest hnd.1]
        cases e.2 <;> simp
      · have hne : first.1 ≠ e.1 := by
          intro heq
          exact hnd.1 (heq ▸ List.mem_map_of_mem he)
        rw [ih hnd.2 he]
        cases first.2 <;> simp [hne]
  rw [pick?, List.filter_map]
  have hcomp : ((fun m : String × Option Json => decide (m.1 = e.1)) ∘
      fun m : String × Json => (m.1, some m.2)) = fun m => decide (m.1 = e.1) := rfl
  rw [hcomp, hfilter]
  cases e.2 <;> rfl

theorem slots?_present {entries : List (String × Option Json)}
    (hnd : (entries.map (·.1)).Nodup) :
    (named ((present entries).map fun m => (m.1, some m.2))).slots? (entries.map (·.1)) =
      some (entries.map fun e => slotOf e.2) := by
  have hall : ∀ part : List (String × Option Json), (∀ e ∈ part, e ∈ entries) →
      (part.map (·.1)).mapM (pick? ((present entries).map fun m => (m.1, some m.2))) =
        some (part.map fun e => slotOf e.2) := by
    intro part hpart
    induction part with
    | nil => rfl
    | cons e rest ih =>
      have hpick := pick?_present hnd (hpart e (by simp))
      have hrest := ih fun e he => hpart e (by simp [he])
      rw [List.map_cons, List.mapM_cons, hpick, hrest]
      rfl
  exact hall entries fun _ he => he

end Fields

namespace Json

theorem asStrings?_array (texts : List String) :
    asStrings? (.array (texts.map .string)) = some texts := by
  induction texts with
  | nil => rfl
  | cons text rest ih =>
    simp only [asStrings?] at ih
    simp [asStrings?, List.mapM_cons, asString?, ih]

end Json

/-! ### Structures and their texts -/

namespace Form

theorem ofItems_eq_map (items : List Json) : ofItems items = items.map ofJson := by
  induction items with
  | nil => rfl
  | cons v rest ih => rw [ofItems, ih, List.map_cons]

end Form

namespace Fields

theorem ofForm?_ofJson {v : Json} (hv : v.IsWhole) : ofForm? (Form.ofJson v) = ofJson? v := by
  cases v with
  | object members =>
    have hmembers : ∀ ms : Members, Json.MembersWhole ms →
        ((Form.ofMembers ms).mapM fun (m : Option String × Form) =>
          m.1.map fun name => (name, m.2.value?)) = some (ms.map fun m => (m.1, some m.2)) := by
      intro ms hms
      induction ms with
      | nil => rfl
      | cons m rest ih =>
        obtain ⟨hm, hrest⟩ := hms
        rw [Form.ofMembers, List.mapM_cons, ih hrest, Option.map_some, Form.value?_ofJson hm]
        rfl
    rw [Form.ofJson, ofForm?, hmembers members hv.2]
    rfl
  | array items =>
    have hitems : ∀ vs : List Json, Json.AllWhole vs →
        (vs.map Form.ofJson).map Form.value? = vs.map some := by
      intro vs hvs
      induction vs with
      | nil => rfl
      | cons v rest ih => simp [Form.value?_ofJson hvs.1, ih hvs.2]
    rw [Form.ofJson, Form.ofItems_eq_map, ofForm?, hitems items hv]
    rfl
  | _ => rfl

/-- A structure is read from its text as from its value. -/
theorem ofText?_render {v : Json} (hv : v.IsWhole) (hd : v.depth ≤ 2) :
    ofText? v.render = ofJson? v := by
  obtain ⟨c, cs, hchars, -⟩ := Form.chars_eq_cons hv
  have hlength : v.render.length = v.chars.length := by simp [Json.render]
  have hdepth : v.depth < v.render.length + 2 := by
    rw [hlength, hchars, List.length_cons]
    omega
  have hread := (Form.value_chars (v.chars.length + 1)).1 v hv (v.render.length + 2) [] hdepth
    (by omega) (.inl rfl)
  rw [List.append_nil] at hread
  have hlist : v.render.toList = v.chars := by simp [Json.render]
  simp [ofText?, Form.read?, hlist, hread, Form.skipBlanks, ofForm?_ofJson hv]

end Fields

/-! ### Keys -/

namespace Jwk

/-- The members of a key, also those that are missing. -/
def entries (j : Jwk) : List (String × Option Json) :=
  [("kty", some (.string j.kty)), ("kid", j.kid.map .string), ("alg", j.alg.map .string),
    ("use", j.use.map .string), ("k", j.k.map .string), ("crv", j.crv.map .string),
    ("x", j.x.map .string), ("y", j.y.map .string), ("d", j.d.map .string),
    ("n", j.n.map .string), ("e", j.e.map .string), ("p", j.p.map .string),
    ("q", j.q.map .string), ("x5c", j.x5c.map fun chain => .array (chain.map .string)),
    ("x5t#S256", j.x5tS256.map .string)]

theorem names_entries (j : Jwk) : j.entries.map (·.1) = memberNames := rfl

theorem members_eq_present (j : Jwk) : j.members = Fields.present j.entries := by
  simp [members, entries, Fields.present, textMember, Option.map_map, Function.comp_def]

theorem nodup_memberNames : memberNames.Nodup := by decide

theorem ofJson?_toJson (j : Jwk) : ofJson? j.toJson = some j := by
  have hnames : (j.entries.map (·.1)).Nodup := nodup_memberNames
  have hslots := Fields.slots?_present hnames
  have htext : ∀ value : Option String,
      (Fields.slotOf (value.map Json.string)).optional Json.asString? = some value := by
    intro value
    cases value <;> rfl
  have htexts : ∀ value : Option (List String),
      (Fields.slotOf (value.map fun chain => Json.array (chain.map .string))).optional
        Json.asStrings? = some value := by
    intro value
    cases value with
    | none => rfl
    | some chain =>
      simp only [Option.map_some, Fields.slotOf, Slot.optional, Json.asStrings?_array]
  have hkty : (Fields.slotOf (some (Json.string j.kty))).required Json.asString? = some j.kty := rfl
  rw [names_entries] at hslots
  rw [ofJson?, toJson, members_eq_present]
  change ofFields? (.named _) = some j
  rw [ofFields?, hslots, Option.bind_eq_bind, Option.bind_some]
  dsimp only [entries, List.map]
  rw [hkty, htexts]
  simp only [htext]
  rfl

theorem isWhole_toJson (j : Jwk) : j.toJson.IsWhole ∧ j.toJson.depth ≤ 2 := by
  have hnames : (j.members.map (·.1)).Nodup := by
    have hsub := Fields.names_present_sublist j.entries
    rw [← members_eq_present, names_entries] at hsub
    exact nodup_memberNames.sublist hsub
  have htext : ∀ (value : Option String) (v : Json), value.map Json.string = some v →
      v.IsWhole ∧ v.depth ≤ 1 := by
    intro value v hv
    cases value with
    | none => cases hv
    | some text =>
      cases hv
      exact ⟨trivial, Nat.zero_le 1⟩
  have hchain : ∀ (value : Option (List String)) (v : Json),
      value.map (fun chain => Json.array (chain.map .string)) = some v →
        v.IsWhole ∧ v.depth ≤ 1 := by
    intro value v hv
    cases value with
    | none => cases hv
    | some chain =>
      cases hv
      simp only [Json.IsWhole, Json.depth]
      induction chain with
      | nil => exact ⟨trivial, Nat.le_refl 1⟩
      | cons text rest ih =>
        exact ⟨⟨trivial, ih.1⟩, by simpa [Json.itemsDepth, Json.depth] using ih.2⟩
  have hall : ∀ e ∈ j.entries, ∀ v, e.2 = some v → v.IsWhole ∧ v.depth ≤ 1 := by
    simp only [entries, List.forall_mem_cons]
    refine ⟨htext (some j.kty), htext j.kid, htext j.alg, htext j.use, htext j.k, htext j.crv,
      htext j.x, htext j.y, htext j.d, htext j.n, htext j.e, htext j.p, htext j.q, hchain j.x5c,
      htext j.x5tS256, by simp⟩
  obtain ⟨hwhole, hdepth⟩ := Fields.whole_present hall
  rw [← members_eq_present] at hwhole hdepth
  exact ⟨⟨hnames, hwhole⟩, Nat.succ_le_succ hdepth⟩

theorem ofText?_render (j : Jwk) : ofText? j.render = some j := by
  obtain ⟨hwhole, hdepth⟩ := j.isWhole_toJson
  rw [ofText?, render, Fields.ofText?_render hwhole hdepth]
  exact j.ofJson?_toJson

end Jwk

/-! ### Headers -/

/-- Parameters of the kind that a method sends, with a count that fits in 32 bits. -/
def WrapParameters.Fits : WrapParameters → KeyManagement → Prop
  | .none, .direct => True
  | .none, .aesWrap _ => True
  | .none, .rsaOaep _ => True
  | .gcm _ _, .gcmWrap _ => True
  | .agreement _ _ _, .agreement _ => True
  | .password _ count, .password _ _ => count < 2 ^ 32
  | _, _ => False

namespace Header

/-- The text of some bytes, if there are any. -/
def textOf (bytes : Bytes) : Option Json :=
  if bytes = [] then none else some (.string (Base64Url.encode bytes))

/-- The header has the members that spell some parameters. -/
def Carries (h : Header) : WrapParameters → Prop
  | .none => True
  | .gcm iv tag => h.get? "iv" = some (.string (Base64Url.encode iv)) ∧
      h.get? "tag" = some (.string (Base64Url.encode tag))
  | .agreement epk apu apv => h.get? "epk" = some epk.toJson ∧ h.get? "apu" = textOf apu ∧
      h.get? "apv" = textOf apv
  | .password salt count => h.get? "p2s" = some (.string (Base64Url.encode salt)) ∧
      h.get? "p2c" = some (.integer count)

theorem requiredBytes_of_get? {h : Header} {name : String} {bytes : Bytes}
    (hget : h.get? name = some (.string (Base64Url.encode bytes))) :
    h.requiredBytes name = .ok bytes := by
  simp [requiredBytes, text?, hget, Json.asString?, Base64Url.decode_encode]

theorem optionalBytes_of_get? {h : Header} {name : String} {bytes : Bytes}
    (hget : h.get? name = textOf bytes) : h.optionalBytes name = .ok bytes := by
  by_cases hb : bytes = []
  · simp [optionalBytes, hget, textOf, hb]
  · simp [optionalBytes, hget, textOf, hb, Base64Url.decode_encode]

theorem iterationCount_of_get? {h : Header} {count : Nat}
    (hget : h.get? "p2c" = some (.integer count)) (hlt : count < 2 ^ 32) :
    h.iterationCount = .ok count := by
  have hasNat : Json.asNat? (Nat.pow 2 32) (.integer count) = some count := if_pos hlt
  rw [iterationCount, hget, Option.bind_some, hasNat]

/-- A header that carries parameters gives them back. -/
theorem parameters_of_carries {h : Header} {p : WrapParameters} {m : KeyManagement}
    (hfits : p.Fits m) (hcarries : h.Carries p) : h.parameters m = .ok p := by
  cases p with
  | none => cases m <;> first | rfl | exact hfits.elim
  | gcm iv tag =>
    cases m with
    | gcmWrap bits =>
      simp [parameters, requiredBytes_of_get? hcarries.1, requiredBytes_of_get? hcarries.2]
    | _ => exact hfits.elim
  | agreement epk apu apv =>
    cases m with
    | agreement bits =>
      obtain ⟨hepk, hapu, hapv⟩ := hcarries
      simp [parameters, ephemeral, hepk, Jwk.ofJson?_toJson, optionalBytes_of_get? hapu,
        optionalBytes_of_get? hapv]
    | _ => exact hfits.elim
  | password salt count =>
    cases m with
    | password hash bits =>
      obtain ⟨hsalt, hcount⟩ := hcarries
      simp [parameters, iterationCount_of_get? hcount hfits, requiredBytes_of_get? hsalt]
    | _ => exact hfits.elim

theorem get?_insertBytes (h : Header) (name other : String) (bytes : Bytes) :
    (h.insertBytes name bytes).get? other =
      if name = other then some (.string (Base64Url.encode bytes)) else h.get? other :=
  get?_insert h name other _

theorem get?_insertSome (h : Header) (name other : String) (bytes : Bytes) :
    (h.insertSome name bytes).get? other =
      if name = other then (textOf bytes).or (h.get? other) else h.get? other := by
  by_cases hb : bytes = []
  · simp [insertSome, textOf, hb]
  · simp [insertSome, textOf, hb, get?_insertBytes]

/-- Optional members must not be there before. -/
theorem carries_setParameters (h : Header) (p : WrapParameters) (hapu : h.get? "apu" = none)
    (hapv : h.get? "apv" = none) : (h.setParameters p).Carries p := by
  cases p with
  | none => trivial
  | gcm iv tag => simp [setParameters, Carries, get?_insertBytes]
  | agreement epk apu apv =>
    simp [setParameters, Carries, get?_insertSome, get?_insert, hapu, hapv]
  | password salt count => simp [setParameters, Carries, get?_insertBytes, get?_insert]

def parameterNames : List String := ["epk", "apu", "apv", "iv", "tag", "p2s", "p2c"]

theorem get?_setParameters (h : Header) (p : WrapParameters) {name : String}
    (hname : name ∉ parameterNames) : (h.setParameters p).get? name = h.get? name := by
  simp only [parameterNames, List.mem_cons, List.not_mem_nil, not_or, or_false] at hname
  obtain ⟨hepk, hapu, hapv, hiv, htag, hp2s, hp2c⟩ := hname
  cases p with
  | none => rfl
  | gcm iv tag => simp [setParameters, get?_insertBytes, Ne.symm hiv, Ne.symm htag]
  | agreement epk apu apv =>
    simp [setParameters, get?_insertSome, get?_insert, Ne.symm hepk, Ne.symm hapu, Ne.symm hapv]
  | password salt count =>
    simp [setParameters, get?_insertBytes, get?_insert, Ne.symm hp2s, Ne.symm hp2c]

/-- What is added to a header does not replace its parameters. -/
theorem Carries.finishHeader {mandated extra : Header} {p : WrapParameters} (o : Options)
    (hcarries : mandated.Carries p) (hapu : extra.get? "apu" = none)
    (hapv : extra.get? "apv" = none) : (Issuer.finishHeader o mandated extra).Carries p := by
  cases p with
  | none => trivial
  | gcm iv tag => simpa [Carries, get?_finishHeader] using by simp [hcarries.1, hcarries.2]
  | agreement epk apu apv =>
    obtain ⟨hepk, hu, hv⟩ := hcarries
    simp [Carries, get?_finishHeader, hepk, hu, hv, hapu, hapv]
  | password salt count => simpa [Carries, get?_finishHeader] using by simp [hcarries.1, hcarries.2]

theorem IsPlain.insertBytes {h : Header} (hp : h.IsPlain) (name : String) (bytes : Bytes) :
    (h.insertBytes name bytes).IsPlain :=
  hp.insertString name _

theorem IsPlain.insertSome {h : Header} (hp : h.IsPlain) (name : String) (bytes : Bytes) :
    (h.insertSome name bytes).IsPlain := by
  by_cases hb : bytes = []
  · simpa [Header.insertSome, hb] using hp
  · simpa [Header.insertSome, hb] using hp.insertBytes name bytes

theorem IsPlain.setParameters {h : Header} (hp : h.IsPlain) {p : WrapParameters}
    {m : KeyManagement} (hfits : p.Fits m) : (h.setParameters p).IsPlain := by
  cases p with
  | none => exact hp
  | gcm iv tag => exact (hp.insertBytes _ _).insertBytes _ _
  | agreement epk apu apv =>
    obtain ⟨hwhole, hdepth⟩ := epk.isWhole_toJson
    have hlt : epk.toJson.depth + 1 < Json.depthLimit := by
      rw [Json.depthLimit]
      omega
    exact ((hp.insert "epk" hwhole hlt).insertSome _ _).insertSome _ _
  | password salt count =>
    have hlt : count < 2 ^ 32 := by
      cases m with
      | password hash bits => exact hfits
      | _ => exact hfits.elim
    refine (hp.insertBytes _ _).insert "p2c" ?_ (by simp [Json.depth, Json.depthLimit])
    simp only [Json.IsWhole]
    omega

end Header

end TokenSeal
