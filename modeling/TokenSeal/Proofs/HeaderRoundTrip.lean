import TokenSeal.Proofs.ExtraMembers
import TokenSeal.Proofs.MemberOrder
import TokenSeal.Token.Edit

/-! A header is a map that keeps the order in which its members were put in. It is read back from
its segment with that order, and key management parameters are read back from it too. -/

namespace TokenSeal

/-! ### Members that are put in and taken out -/

namespace Members

section Edit

variable {before after ms : Members} {name : String} {old : Json}

theorem exchange_append_cons (hname : name ∉ before.names) (v : Json) :
    exchange (before ++ (name, old) :: after) name v =
      (some old, before ++ (name, v) :: after) := by
  induction before with
  | nil => simp [exchange]
  | cons m before ih =>
    simp only [names, List.map_cons, List.mem_cons, not_or] at hname
    simp [exchange, Ne.symm hname.1, ih hname.2]

theorem extract_append_cons (hname : name ∉ before.names) :
    extract (before ++ (name, old) :: after) name = (some old, before ++ after) := by
  induction before with
  | nil => simp [extract]
  | cons m before ih =>
    simp only [names, List.map_cons, List.mem_cons, not_or] at hname
    simp [extract, Ne.symm hname.1, ih hname.2]

theorem exchange_of_notMem (hname : name ∉ ms.names) (v : Json) :
    ms.exchange name v = (none, ms ++ [(name, v)]) := by
  induction ms with
  | nil => rfl
  | cons m rest ih =>
    simp only [names, List.map_cons, List.mem_cons, not_or] at hname
    simp [exchange, Ne.symm hname.1, ih hname.2]

theorem extract_of_notMem (hname : name ∉ ms.names) : ms.extract name = (none, ms) := by
  induction ms with
  | nil => rfl
  | cons m rest ih =>
    simp only [names, List.map_cons, List.mem_cons, not_or] at hname
    simp [extract, Ne.symm hname.1, ih hname.2]

theorem eq_or_mem_of_mem_insert {m : String × Json} {v : Json} (hm : m ∈ ms.insert name v) :
    m = (name, v) ∨ m ∈ ms := by
  induction ms with
  | nil => simpa [insert] using hm
  | cons first rest ih =>
    by_cases h : first.1 = name
    · simp only [insert, h, if_true, List.mem_cons] at hm
      exact hm.imp_right (List.mem_cons_of_mem first)
    · simp only [insert, h, if_false, List.mem_cons] at hm
      obtain rfl | hm := hm
      · exact .inr List.mem_cons_self
      · exact (ih hm).imp_right (List.mem_cons_of_mem first)

end Edit

end Members

theorem Json.membersWhole_iff {ms : Members} :
    Json.MembersWhole ms ↔ ∀ m ∈ ms, m.2.IsWhole := by
  induction ms with
  | nil => simp [Json.MembersWhole]
  | cons m rest ih => simp [Json.MembersWhole, ih]

/-! ### Objects that are read -/

theorem Numeral.value?_ne_object (t : Numeral) (ms : Members) : t.value? ≠ some (.object ms) := by
  unfold Numeral.value?
  split
  split
  · split_ifs
    · simp
    · simp
    · simp
    · simp
  · simp

namespace Form

theorem nodup_memberValues? {done ms : Members} {members : List (Option String × Form)}
    (hdone : done.names.Nodup) (h : memberValues? done members = some ms) : ms.names.Nodup := by
  induction members generalizing done with
  | nil =>
    simp only [memberValues?, Option.some.injEq] at h
    exact h ▸ hdone
  | cons m rest ih =>
    obtain ⟨_ | name, v⟩ := m
    · simp [memberValues?] at h
    · simp only [memberValues?] at h
      cases hv : value? v with
      | none => simp [hv] at h
      | some x =>
        simp only [hv] at h
        exact ih (Members.nodup_insert hdone name x) h

theorem nodup_of_value? {f : Form} {ms : Members} (h : f.value? = some (.object ms)) :
    ms.names.Nodup := by
  cases f with
  | object members =>
    simp only [value?, Option.map_eq_some_iff] at h
    obtain ⟨ms', hms, hobj⟩ := h
    cases hobj
    have hnone : (Members.names []).Nodup := List.nodup_nil
    exact nodup_memberValues? hnone hms
  | number t => exact absurd h (t.value?_ne_object ms)
  | array items => simp [value?] at h
  | string s => simp [value?] at h
  | _ => simp [value?] at h

end Form

theorem Json.nodup_of_parse? {text : String} {ms : Members}
    (h : Json.parse? text = some (.object ms)) : ms.names.Nodup := by
  obtain ⟨f, -, hf⟩ := Option.bind_eq_some_iff.1 h
  exact Form.nodup_of_value? hf

theorem Json.lt_of_asNat? {v : Json} {bound n : Nat} (h : v.asNat? bound = some n) :
    n < bound := by
  unfold asNat? at h
  split at h
  · split at h
    · next hlt =>
      cases h
      exact hlt
    · cases h
  · cases h

/-! ### Readers -/

/-- A value with a property is read, or else what is read has no proper form. -/
def Yields {α : Type} (x : Except TokenError α) (p : α → Prop) : Prop :=
  (∃ a, x = .ok a ∧ p a) ∨ ∃ err, x = .error err ∧ err.kind = .format

namespace Yields

variable {α β : Type} {p : α → Prop} {q : β → Prop}

theorem ok {a : α} (ha : p a) : Yields (.ok a) p := .inl ⟨a, rfl, ha⟩

theorem error {err : TokenError} (h : err.kind = .format) : Yields (.error err) p :=
  .inr ⟨err, rfl, h⟩

theorem bind {x : Except TokenError α} {f : α → Except TokenError β} (hx : Yields x p)
    (hf : ∀ a, p a → Yields (f a) q) : Yields (x >>= f) q := by
  obtain ⟨a, rfl, ha⟩ | ⟨err, rfl, herr⟩ := hx
  · exact hf a ha
  · exact .error herr

theorem mono {r : α → Prop} {x : Except TokenError α} (hx : Yields x p) (h : ∀ a, p a → r a) :
    Yields x r :=
  hx.imp_left fun ⟨a, hok, ha⟩ => ⟨a, hok, h a ha⟩

theorem decode (text : String) :
    Yields ((Base64Url.decode text).mapError .fault)
      fun bytes => Base64Url.decode text = .ok bytes := by
  cases h : Base64Url.decode text with
  | ok bytes => exact .ok rfl
  | error cause => exact .error (Base64Url.kind_of_decode h)

end Yields

namespace Header

/-! ### Edits one after another -/

theorem name_notMem_of_members {h : Header} {before after : Members} {name : String} {old : Json}
    (hsplit : h.members = before ++ (name, old) :: after) : name ∉ before.names := by
  have hnd := h.nodup
  rw [hsplit, Members.names, List.map_append, List.map_cons] at hnd
  exact fun hin => (List.nodup_append.1 hnd).2.2 name hin name (by simp) rfl

/-- What an edit hands back, and what it does to the order of the members. -/
structure KeepsOrder (h : Header) : Prop where
  unique : h.names.Nodup
  insert_old : ∀ before name old after v, h.members = before ++ (name, old) :: after →
    (h.edit (.insert name v)).1 = some old ∧
      (h.edit (.insert name v)).2.members = before ++ (name, v) :: after
  insert_new : ∀ name v, name ∉ h.names →
    (h.edit (.insert name v)).1 = none ∧
      (h.edit (.insert name v)).2.members = h.members ++ [(name, v)]
  remove_old : ∀ before name old after, h.members = before ++ (name, old) :: after →
    (h.edit (.remove name)).1 = some old ∧ (h.edit (.remove name)).2.members = before ++ after
  remove_new : ∀ name, name ∉ h.names →
    (h.edit (.remove name)).1 = none ∧ (h.edit (.remove name)).2 = h

theorem keepsOrder (h : Header) : h.KeepsOrder where
  unique := h.nodup
  insert_old before name old after v hsplit := by
    have hnew : h.members.exchange name v = (some old, before ++ (name, v) :: after) := by
      rw [hsplit]
      exact Members.exchange_append_cons (name_notMem_of_members hsplit) v
    exact ⟨congrArg Prod.fst hnew, congrArg Prod.snd hnew⟩
  insert_new name v hname := by
    have hnew := Members.exchange_of_notMem hname v
    exact ⟨congrArg Prod.fst hnew, congrArg Prod.snd hnew⟩
  remove_old before name old after hsplit := by
    have hnew : h.members.extract name = (some old, before ++ after) := by
      rw [hsplit]
      exact Members.extract_append_cons (name_notMem_of_members hsplit)
    exact ⟨congrArg Prod.fst hnew, congrArg Prod.snd hnew⟩
  remove_new name hname := by
    have hnew := Members.extract_of_notMem hname
    exact ⟨congrArg Prod.fst hnew, Header.ext (congrArg Prod.snd hnew)⟩

section Edited

variable {h : Header} {e : HeaderEdit} {m : String × Json}

theorem mem_edit (hm : m ∈ (h.edit e).2.members) : m ∈ h.members ∨ e = .insert m.1 m.2 := by
  cases e with
  | insert name v =>
    have hin : m ∈ h.members.insert name v := by
      rw [← Members.exchange_snd]
      exact hm
    obtain rfl | hm := Members.eq_or_mem_of_mem_insert hin
    · exact .inr rfl
    · exact .inl hm
  | remove name => exact .inl ((Members.extract_snd_sublist h.members name).subset hm)

theorem mem_of_mem_edited {edits : List HeaderEdit} (hm : m ∈ (edited edits).members) :
    .insert m.1 m.2 ∈ edits := by
  have hrun : ∀ (edits : List HeaderEdit) (h : Header),
      m ∈ (edits.foldl (fun h e => (h.edit e).2) h).members →
        m ∈ h.members ∨ .insert m.1 m.2 ∈ edits := by
    intro edits
    induction edits with
    | nil => exact fun h hm => .inl hm
    | cons e rest ih =>
      intro h hm
      rcases ih (h.edit e).2 hm with hm | hm
      · exact (mem_edit hm).imp_right fun he => List.mem_cons.2 (.inl he.symm)
      · exact .inr (List.mem_cons_of_mem e hm)
  exact (hrun edits empty hm).resolve_left List.not_mem_nil

end Edited

theorem isPlain_iff {h : Header} :
    h.IsPlain ↔ (∀ m ∈ h.members, m.2.IsWhole) ∧ h.toJson.depth ≤ 127 := by
  simp only [IsPlain, toJson, Json.IsWhole, Json.membersWhole_iff, Json.depthLimit]
  exact ⟨fun hp => ⟨hp.1.2, by omega⟩, fun hp => ⟨⟨h.nodup, hp.1⟩, by omega⟩⟩

theorem ofSegment_yields (segment : String) :
    Yields (ofSegment segment) fun h => ∃ bytes text, Base64Url.decode segment = .ok bytes ∧
      Bytes.toText? bytes = some text ∧ Json.parse? text = some h.toJson := by
  refine (Yields.decode segment).bind fun bytes hbytes => ?_
  cases htext : Bytes.toText? bytes with
  | none => exact .error rfl
  | some text =>
    simp only [ofText]
    split
    · exact .error rfl
    · next ms hparse =>
      -- The reader has already joined the members of one name.
      have hms : (empty.insertAll ms).members = ms :=
        members_insertAll empty ms (Json.nodup_of_parse? hparse)
      exact .ok ⟨bytes, text, hbytes, htext, by rw [hparse, toJson, hms]⟩
    · exact .error rfl

/-- However a header was made, it keeps its members in order, and is read back from its segment
when its numbers are whole and it nests no deeper than a reader goes. -/
theorem ofSegment_edited (edits : List HeaderEdit) :
    (edited edits).KeepsOrder ∧
      (∀ m ∈ (edited edits).members, HeaderEdit.insert m.1 m.2 ∈ edits) ∧
      ((∀ m ∈ (edited edits).members, m.2.IsWhole) → (edited edits).toJson.depth ≤ 127 →
        ofSegment (edited edits).toSegment = .ok (edited edits)) ∧
      ∀ segment, Yields (ofSegment segment) fun h => ∃ bytes text,
        Base64Url.decode segment = .ok bytes ∧ Bytes.toText? bytes = some text ∧
          Json.parse? text = some h.toJson :=
  ⟨keepsOrder _, fun _ hm => mem_of_mem_edited hm,
    fun hwhole hdepth => ofSegment_toSegment (isPlain_iff.2 ⟨hwhole, hdepth⟩), ofSegment_yields⟩

/-- A name that gets a value again keeps its place, and one that is taken out and put back does
not. -/
theorem ofSegment_edited_again :
    let edits : List HeaderEdit :=
      [.insert "a\"\n\x01" (.integer (-2 ^ 63)), .insert "b" (.string "é\\\x1f"),
        .insert "c" (.array [.null, .object [("", .integer (2 ^ 64 - 1))]]), .insert "b" .null,
        .remove "a\"\n\x01", .insert "a\"\n\x01" (.bool true)]
    let h := edited edits
    h.members = [("b", .null), ("c", .array [.null, .object [("", .integer (2 ^ 64 - 1))]]),
      ("a\"\n\x01", .bool true)] ∧ ofSegment h.toSegment = .ok h := by
  intro edits h
  have hmembers : h.members =
      [("b", .null), ("c", .array [.null, .object [("", .integer (2 ^ 64 - 1))]]),
        ("a\"\n\x01", .bool true)] := rfl
  have hwhole : ∀ m ∈ h.members, m.2.IsWhole := by
    rw [hmembers]
    simp [Json.IsWhole, Json.AllWhole, Json.MembersWhole]
  have hdepth : h.toJson.depth ≤ 127 := by
    rw [toJson, hmembers]
    simp [Json.depth, Json.membersDepth, Json.itemsDepth]
  exact ⟨hmembers, (ofSegment_edited edits).2.2.1 hwhole hdepth⟩

/-! ### Key management parameters -/

theorem get?_eq_none_iff {h : Header} {name : String} :
    h.get? name = none ↔ name ∉ h.names := by
  have hcontains := contains_eq h name
  rw [contains] at hcontains
  rw [← decide_eq_false_iff_not, ← hcontains, Option.isSome_eq_false_iff, Option.isNone_iff_eq_none]

theorem requiredBytes_yields (h : Header) (name : String) :
    Yields (h.requiredBytes name) fun _ => True := by
  unfold requiredBytes
  split
  · exact (Yields.decode _).mono fun _ _ => trivial
  · exact .error rfl

theorem optionalBytes_yields (h : Header) (name : String) :
    Yields (h.optionalBytes name) fun _ => True := by
  unfold optionalBytes
  split
  · exact .ok trivial
  · exact (Yields.decode _).mono fun _ _ => trivial
  · exact .error rfl

theorem ephemeral_yields (h : Header) : Yields h.ephemeral fun _ => True := by
  unfold ephemeral
  split
  · exact .error rfl
  · split
    · exact .ok trivial
    · exact .error rfl

theorem iterationCount_yields (h : Header) : Yields h.iterationCount (· < 2 ^ 32) := by
  unfold iterationCount
  split
  · next n hn =>
    obtain ⟨v, -, hv⟩ := Option.bind_eq_some_iff.1 hn
    exact .ok (Json.lt_of_asNat? hv)
  · exact .error rfl

theorem parameters_yields (h : Header) (m : KeyManagement) :
    Yields (h.parameters m) (·.Fits m) := by
  cases m with
  | gcmWrap bits =>
    refine (h.requiredBytes_yields "iv").bind fun iv _ => ?_
    exact (h.requiredBytes_yields "tag").bind fun tag _ => .ok trivial
  | agreement bits =>
    refine h.ephemeral_yields.bind fun epk _ => ?_
    refine (h.optionalBytes_yields "apu").bind fun apu _ => ?_
    exact (h.optionalBytes_yields "apv").bind fun apv _ => .ok trivial
  | password hash bits =>
    refine h.iterationCount_yields.bind fun count hcount => ?_
    exact (h.requiredBytes_yields "p2s").bind fun salt _ => .ok hcount
  | direct => exact .ok trivial
  | aesWrap bits => exact .ok trivial
  | rsaOaep hash => exact .ok trivial

/-- Parameters that are put in a header are read back from its segment, behind all that was in the
header before. Whatever a header holds, parameters of the right shape are read from the members of
their method alone, or have no proper form. -/
theorem parameters_ofSegment (h : Header) (m : KeyManagement) :
    (∀ p : WrapParameters, p.Fits m → h.IsPlain → (∀ name ∈ parameterNames, name ∉ h.names) →
      ∃ h', ofSegment (h.setParameters p).toSegment = .ok h' ∧ h'.parameters m = .ok p ∧
        h'.members = h.members ++ p.members) ∧
      Yields (h.parameters m) (·.Fits m) ∧
      ∀ h' : Header, (∀ name ∈ m.memberNames, h'.get? name = h.get? name) →
        h'.parameters m = h.parameters m := by
  refine ⟨fun p hfits hplain hnames => ?_, h.parameters_yields m, fun h' => parameters_congr⟩
  have hget : ∀ name ∈ parameterNames, h.get? name = none := fun name hname =>
    get?_eq_none_iff.2 (hnames name hname)
  have hcarries : (h.setParameters p).Carries p :=
    carries_setParameters h p (hget "apu" (by simp [parameterNames]))
      (hget "apv" (by simp [parameterNames]))
  exact ⟨h.setParameters p, ofSegment_toSegment (hplain.setParameters hfits),
    parameters_of_carries hfits hcarries, members_setParameters hnames p⟩

/-- A party without a name has no member, and is read as one without a name. -/
theorem parameters_ofSegment_unnamed :
    let h := Header.empty.insert "alg" (.string "ECDH-ES")
    let p := WrapParameters.agreement { kty := "EC", x := some "\"", x5c := some [] } [] [1, 2]
    p.Fits (.agreement none) ∧ h.IsPlain ∧ (∀ name ∈ parameterNames, name ∉ h.names) ∧
      ∃ h', ofSegment (h.setParameters p).toSegment = .ok h' ∧
        h'.parameters (.agreement none) = .ok p ∧ h'.names = ["alg", "epk", "apv"] := by
  intro h p
  have hplain : h.IsPlain := isPlain_empty.insertString "alg" "ECDH-ES"
  have hnames : ∀ name ∈ parameterNames, name ∉ h.names := by decide
  obtain ⟨h', hread, hparameters, hmembers⟩ :=
    (parameters_ofSegment h (.agreement none)).1 p trivial hplain hnames
  refine ⟨trivial, hplain, hnames, h', hread, hparameters, ?_⟩
  rw [names, hmembers]
  rfl

end Header

end TokenSeal
