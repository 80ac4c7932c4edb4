import TokenSeal.Proofs.Parameters

/-! The members of a header in their order: those that the issuer has to set, those that were asked
for, and the standard type. -/

namespace TokenSeal

/-- A member with a text, if there is a text. -/
def Members.ofText (name : String) (text : Option String) : Members :=
  (text.map fun t => (name, Json.string t)).toList

/-- A member with some bytes. -/
def Members.ofBytes (name : String) (bytes : Bytes) : Members :=
  [(name, .string (Base64Url.encode bytes))]

/-- A member with some bytes, if there are any. -/
def Members.ofSome (name : String) (bytes : Bytes) : Members :=
  if bytes = [] then [] else ofBytes name bytes

/-- The members for key management parameters. Parties without a name are left out. -/
def WrapParameters.members : WrapParameters → Members
  | .none => []
  | .gcm iv tag => Members.ofBytes "iv" iv ++ Members.ofBytes "tag" tag
  | .agreement epk apu apv =>
    [("epk", epk.toJson)] ++ Members.ofSome "apu" apu ++ Members.ofSome "apv" apv
  | .password salt count => Members.ofBytes "p2s" salt ++ [("p2c", .integer count)]

namespace Header

/-! ### One member more -/

theorem notMem_names_empty (name : String) : name ∉ empty.names := List.not_mem_nil

theorem mem_names_insert {h : Header} {name other : String} {v : Json} :
    other ∈ (h.insert name v).names ↔ other ∈ h.names ∨ other = name := by
  have hnames : (h.insert name v).names =
      if name ∈ h.names then h.names else h.names ++ [name] := Members.names_insert h.members name v
  rw [hnames]
  split
  · next hin => exact ⟨.inl, fun hor => hor.elim id (· ▸ hin)⟩
  · simp

theorem mem_names_insertText {h : Header} {name other : String} {text : Option String} :
    other ∈ (Issuer.insertText h name text).names ↔
      other ∈ h.names ∨ other = name ∧ text.isSome := by
  cases text with
  | none => simp [Issuer.insertText]
  | some t => simp [Issuer.insertText, mem_names_insert]

theorem members_insert {h : Header} {name : String} (hname : name ∉ h.names) (v : Json) :
    (h.insert name v).members = h.members ++ [(name, v)] :=
  Members.insert_of_notMem hname v

theorem members_insertText {h : Header} {name : String} (hname : name ∉ h.names)
    (text : Option String) :
    (Issuer.insertText h name text).members = h.members ++ Members.ofText name text := by
  cases text with
  | none => simp [Issuer.insertText, Members.ofText]
  | some t => exact members_insert hname (.string t)

theorem members_insertBytes {h : Header} {name : String} (hname : name ∉ h.names)
    (bytes : Bytes) : (h.insertBytes name bytes).members = h.members ++ Members.ofBytes name bytes :=
  members_insert hname _

theorem members_insertSome {h : Header} {name : String} (hname : name ∉ h.names)
    (bytes : Bytes) :
    (h.insertSome name bytes).members = h.members ++ Members.ofSome name bytes := by
  by_cases hbytes : bytes = []
  · simp [insertSome, Members.ofSome, hbytes]
  · simpa only [insertSome, Members.ofSome, hbytes, if_false] using members_insertBytes hname bytes

theorem members_setParameters {h : Header} (hnames : ∀ name ∈ parameterNames, name ∉ h.names)
    (p : WrapParameters) : (h.setParameters p).members = h.members ++ p.members := by
  simp only [parameterNames, List.forall_mem_cons] at hnames
  obtain ⟨hepk, hapu, hapv, hiv, htag, hp2s, hp2c, -⟩ := hnames
  cases p with
  | none => simp [setParameters, WrapParameters.members]
  | gcm iv tag =>
    have htag' : "tag" ∉ (h.insertBytes "iv" iv).names := by
      simp [insertBytes, mem_names_insert, htag]
    rw [setParameters, members_insertBytes htag', members_insertBytes hiv, List.append_assoc]
    rfl
  | agreement epk apu apv =>
    have hapu' : "apu" ∉ (h.insert "epk" epk.toJson).names := by
      simp [mem_names_insert, hapu]
    have hapv' : "apv" ∉ ((h.insert "epk" epk.toJson).insertSome "apu" apu).names := by
      unfold insertSome
      split <;> simp [insertBytes, mem_names_insert, hapv]
    rw [setParameters, members_insertSome hapv', members_insertSome hapu', members_insert hepk]
    simp [WrapParameters.members]
  | password salt count =>
    have hp2c' : "p2c" ∉ (h.insertBytes "p2s" salt).names := by
      simp [insertBytes, mem_names_insert, hp2c]
    rw [setParameters, members_insert hp2c', members_insertBytes hp2s, List.append_assoc]
    rfl

/-! ### Members that are asked for -/

theorem contains_eq (h : Header) (name : String) : h.contains name = decide (name ∈ h.names) := by
  rw [Bool.eq_iff_iff, decide_eq_true_iff]
  simp [contains, get?, Members.get?, names, Members.names]

theorem members_addMissing (h extra : Header) :
    (h.addMissing extra).members = h.members ++ extra.members.filter (·.1 ∉ h.names) := by
  have hfold : ∀ (ms : Members) (h : Header), ms.names.Nodup →
      (ms.foldl (fun h m => if h.contains m.1 then h else h.insert m.1 m.2) h).members =
        h.members ++ ms.filter (·.1 ∉ h.names) := by
    intro ms
    induction ms with
    | nil => simp
    | cons m rest ih =>
      intro h hnd
      obtain ⟨hm, hnd⟩ := List.nodup_cons.1 hnd
      by_cases hin : m.1 ∈ h.names
      · rw [List.foldl_cons, contains_eq, decide_eq_true hin, if_pos rfl, ih h hnd,
          List.filter_cons_of_neg (by simpa using hin)]
      · -- The names of the others are not its name, so that they are filtered as before.
        have hsame : rest.filter (·.1 ∉ (h.insert m.1 m.2).names) = rest.filter (·.1 ∉ h.names) := by
          refine List.filter_congr fun other hother => ?_
          have hne : other.1 ≠ m.1 := fun he => hm (List.mem_map.2 ⟨other, hother, he⟩)
          simp [mem_names_insert, hne]
        rw [List.foldl_cons, contains_eq, decide_eq_false hin, if_neg Bool.false_ne_true,
          ih _ hnd, hsame, members_insert hin, List.filter_cons_of_pos (by simpa using hin),
          List.append_assoc]
        rfl
  exact hfold extra.members h extra.nodup

end Header

/-! ### Whole headers -/

namespace Issuer

/-- Given members, those of the others that have new names, and the standard type if no member
tells the type. -/
def completed (o : Options) (mandated : Members) (extra : Header) : Members :=
  let members := mandated ++ extra.members.filter (·.1 ∉ mandated.names)
  members ++ Members.ofText "typ" (if "typ" ∈ members.names then none else o.defaultTyp)

/-- The members that a signed token has to have. -/
def signedMandate (algorithm : String) (kid : Option String) : Members :=
  [("alg", .string algorithm)] ++ Members.ofText "kid" kid

/-- The members that an encrypted token has to have. -/
def sealedMandate (algorithm encryption : String) (zip kid cty : Option String)
    (p : WrapParameters) : Members :=
  [("alg", .string algorithm), ("enc", .string encryption)] ++ Members.ofText "zip" zip ++
    Members.ofText "kid" kid ++ Members.ofText "cty" cty ++ p.members

theorem members_finishHeader (o : Options) (mandated extra : Header) :
    (finishHeader o mandated extra).members = completed o mandated.members extra := by
  obtain ⟨h, hh⟩ : ∃ h, mandated.addMissing extra = h := ⟨_, rfl⟩
  have hadd : h.members =
      mandated.members ++ extra.members.filter (·.1 ∉ mandated.members.names) :=
    hh ▸ Header.members_addMissing mandated extra
  have hnames : h.members.names = h.names := rfl
  simp only [completed, ← hadd, hnames]
  by_cases hin : "typ" ∈ h.names
  · have hkeep : finishHeader o mandated extra = h := by
      cases ho : o.defaultTyp <;> simp [finishHeader, ho, hh, Header.contains_eq, hin]
    rw [hkeep, if_pos hin, Members.ofText, Option.map_none, Option.toList_none, List.append_nil]
  · have hset : finishHeader o mandated extra = insertText h "typ" o.defaultTyp := by
      cases ho : o.defaultTyp <;> simp [finishHeader, ho, hh, Header.contains_eq, hin, insertText]
    rw [hset, if_neg hin, Header.members_insertText hin]

example : completed { defaultTyp := some "JOSE" } (signedMandate "HS256" (some "a"))
    ⟨[("x", .null), ("kid", .string "b")], by decide⟩ =
      [("alg", .string "HS256"), ("kid", .string "a"), ("x", .null), ("typ", .string "JOSE")] := rfl

theorem members_signedHeader (i : Issuer) (s : Signer) (extra : Header) :
    (i.signedHeader s extra).members =
      completed i.options (signedMandate s.algorithm.code s.key.id) extra := by
  have hkid : "kid" ∉ (Header.empty.insert "alg" (.string s.algorithm.code)).names := by
    simp [Header.mem_names_insert, Header.notMem_names_empty]
  rw [signedHeader, members_finishHeader, Header.members_insertText hkid]
  rfl

theorem members_sealedMembers (w : KeyWrapper) (enc : Algorithm) (zip : Option Compressor)
    (cty : Option String) (p : WrapParameters) :
    (sealedMembers w enc zip cty p).members =
      sealedMandate w.algorithm.code enc.code (zip.map (·.algorithm.code)) w.key.id cty p := by
  rw [sealedMembers, Header.members_setParameters, Header.members_insertText,
    Header.members_insertText, Header.members_insertText, Header.members_insert,
    Header.members_insert (Header.notMem_names_empty _)]
  · rfl
  all_goals
    simp [Header.mem_names_insertText, Header.mem_names_insert, Header.notMem_names_empty,
      Header.parameterNames]

end Issuer

end TokenSeal
