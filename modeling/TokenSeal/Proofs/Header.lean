import TokenSeal.Proofs.Base64
import TokenSeal.Proofs.Draw
import TokenSeal.Proofs.Json
import TokenSeal.Proofs.Text
import TokenSeal.Token.Encode

/-! Headers under the operations that build them, and reading back the segment of a header. -/

namespace TokenSeal

namespace Members

theorem get?_cons (m : String × Json) (rest : Members) (name : String) :
    get? (m :: rest) name = if m.1 = name then some m.2 else get? rest name := by
  by_cases h : m.1 = name <;> simp [get?, h]

theorem get?_insert (ms : Members) (name other : String) (v : Json) :
    (ms.insert name v).get? other = if name = other then some v else ms.get? other := by
  induction ms with
  | nil => simp [insert, get?]
  | cons m rest ih =>
    by_cases h : m.1 = name
    · by_cases ho : name = other <;> simp [insert, h, get?_cons, ho]
    · simp only [insert, h, if_false, get?_cons, ih]
      by_cases ho : m.1 = other
      · have hn : ¬ name = other := fun e => h (ho.trans e.symm)
        simp [ho, hn]
      · simp [ho]

theorem whole_insert {ms : Members} {name : String} {v : Json} (hms : Json.MembersWhole ms)
    (hv : v.IsWhole) : Json.MembersWhole (ms.insert name v) := by
  induction ms with
  | nil => exact ⟨hv, trivial⟩
  | cons m rest ih =>
    by_cases h : m.1 = name
    · simpa [insert, h] using ⟨hv, hms.2⟩
    · simpa [insert, h] using ⟨hms.1, ih hms.2⟩

theorem depth_insert_lt {ms : Members} {name : String} {v : Json} {n : Nat}
    (hms : Json.membersDepth ms < n) (hv : v.depth < n) :
    Json.membersDepth (ms.insert name v) < n := by
  induction ms with
  | nil => simpa [insert, Json.membersDepth] using hv
  | cons m rest ih =>
    simp only [Json.membersDepth] at hms
    by_cases h : m.1 = name
    · simp only [insert, h, if_true, Json.membersDepth]
      omega
    · have := ih (by omega)
      simp only [insert, h, if_false, Json.membersDepth]
      omega

end Members

namespace Header

theorem ext {h h' : Header} (hm : h.members = h'.members) : h = h' := by
  cases h
  cases h'
  cases hm
  rfl

/-! ### Members -/

theorem get?_empty (name : String) : empty.get? name = none := rfl

theorem get?_insert (h : Header) (name other : String) (v : Json) :
    (h.insert name v).get? other = if name = other then some v else h.get? other :=
  Members.get?_insert h.members name other v

theorem get?_insertText (h : Header) (name other : String) (text : Option String) :
    (Issuer.insertText h name text).get? other =
      if name = other then (text.map .string).or (h.get? other) else h.get? other := by
  cases text with
  | none => simp [Issuer.insertText]
  | some t => simp [Issuer.insertText, get?_insert]

theorem get?_addMissing (h extra : Header) (name : String) :
    (h.addMissing extra).get? name = (h.get? name).or (extra.get? name) := by
  have hfold : ∀ (ms : Members) (h : Header),
      (ms.foldl (fun h m => if h.contains m.1 then h else h.insert m.1 m.2) h).get? name =
        (h.get? name).or (ms.get? name) := by
    intro ms
    induction ms with
    | nil => simp [Members.get?]
    | cons m rest ih =>
      intro h
      rw [List.foldl_cons, ih, Members.get?_cons]
      by_cases hm : m.1 = name
      · cases hg : h.get? name <;> simp [contains, hm, hg, get?_insert]
      · by_cases hc : h.contains m.1 <;> simp [hc, hm, get?_insert]
  exact hfold extra.members h

theorem get?_finishHeader (o : Options) (mandated extra : Header) (name : String) :
    (Issuer.finishHeader o mandated extra).get? name =
      ((mandated.get? name).or (extra.get? name)).or
        (if name = "typ" then o.defaultTyp.map .string else none) := by
  have hadd := get?_addMissing mandated extra
  cases ht : o.defaultTyp with
  | none => simp [Issuer.finishHeader, ht, hadd]
  | some typ =>
    by_cases hn : name = "typ"
    · cases hg : (mandated.get? "typ").or (extra.get? "typ") <;>
        simp [Issuer.finishHeader, ht, hn, contains, hadd, hg, get?_insert]
    · by_cases hc : (mandated.addMissing extra).contains "typ" <;>
        simp [Issuer.finishHeader, ht, hn, hc, hadd, get?_insert, Ne.symm hn]

/-! ### Segments -/

theorem members_insertAll (h : Header) (ms : Members)
    (hnd : (Members.names (h.members ++ ms)).Nodup) :
    (h.insertAll ms).members = h.members ++ ms := by
  induction ms generalizing h with
  | nil => simp [insertAll]
  | cons m rest ih =>
    have hname : m.1 ∉ h.members.names := by
      rw [Members.names, List.map_append, List.map_cons] at hnd
      exact fun hin => (List.nodup_append.1 hnd).2.2 m.1 hin m.1 (by simp) rfl
    have hins : (h.insert m.1 m.2).members = h.members ++ [m] :=
      Members.insert_of_notMem hname m.2
    have hrest := ih (h.insert m.1 m.2) (by simpa [hins] using hnd)
    simpa [insertAll, hins] using hrest

theorem insertAll_members (h : Header) : empty.insertAll h.members = h :=
  ext (members_insertAll empty h.members h.nodup)

/-- Numbers are whole, and a reader of JSON accepts the nesting. -/
def IsPlain (h : Header) : Prop :=
  h.toJson.IsWhole ∧ h.toJson.depth < Json.depthLimit

theorem ofSegment_toSegment {h : Header} (hp : h.IsPlain) : ofSegment h.toSegment = .ok h := by
  have hparse : Json.parse? h.render = some (.object h.members) := Json.parse?_render hp.1 hp.2
  simp [ofSegment, toSegment, Base64Url.decode_encode, Bytes.toText?_ofText, ofText, hparse,
    insertAll_members]

theorem splitDots_toSegment (h : Header) : splitDots h.toSegment = [h.toSegment] :=
  splitDots_dotless (Base64Url.dot_notMem_encode _)

theorem isPlain_empty : empty.IsPlain := by
  simp [IsPlain, empty, toJson, Json.IsWhole, Json.MembersWhole, Json.depth, Json.membersDepth,
    Json.depthLimit]

theorem IsPlain.insert {h : Header} (hp : h.IsPlain) (name : String) {v : Json} (hv : v.IsWhole)
    (hd : v.depth + 1 < Json.depthLimit) : (h.insert name v).IsPlain := by
  have hdepth := hp.2
  simp only [toJson, Json.depth] at hdepth
  refine ⟨⟨(h.insert name v).nodup, Members.whole_insert hp.1.2 hv⟩, ?_⟩
  simp only [toJson, Json.depth, Header.insert]
  have hin : Json.membersDepth (h.members.insert name v) < Json.depthLimit - 1 :=
    Members.depth_insert_lt (by omega) (by omega)
  omega

theorem IsPlain.insertString {h : Header} (hp : h.IsPlain) (name text : String) :
    (h.insert name (.string text)).IsPlain :=
  hp.insert name trivial (by simp [Json.depth, Json.depthLimit])

theorem IsPlain.insertText {h : Header} (hp : h.IsPlain) (name : String) (text : Option String) :
    (Issuer.insertText h name text).IsPlain := by
  cases text with
  | none => exact hp
  | some t => exact hp.insertString name t

theorem IsPlain.addMissing {h extra : Header} (hp : h.IsPlain) (he : extra.IsPlain) :
    (h.addMissing extra).IsPlain := by
  have hfold : ∀ (ms : Members) (h : Header), h.IsPlain → Json.MembersWhole ms →
      Json.membersDepth ms + 1 < Json.depthLimit →
      (ms.foldl (fun h m => if h.contains m.1 then h else h.insert m.1 m.2) h).IsPlain := by
    intro ms
    induction ms with
    | nil => exact fun _ hp _ _ => hp
    | cons m rest ih =>
      intro h hp hw hd
      simp only [Json.membersDepth] at hd
      rw [List.foldl_cons]
      refine ih _ ?_ hw.2 (by omega)
      by_cases hc : h.contains m.1
      · simpa [hc] using hp
      · simpa [hc] using hp.insert m.1 hw.1 (by omega)
  exact hfold extra.members h hp he.1.2 he.2

theorem IsPlain.finishHeader {mandated extra : Header} (o : Options) (hm : mandated.IsPlain)
    (he : extra.IsPlain) : (Issuer.finishHeader o mandated extra).IsPlain := by
  have hadd := hm.addMissing he
  cases ht : o.defaultTyp with
  | none => simpa [Issuer.finishHeader, ht] using hadd
  | some typ =>
    by_cases hc : (mandated.addMissing extra).contains "typ"
    · simpa [Issuer.finishHeader, ht, hc] using hadd
    · simpa [Issuer.finishHeader, ht, hc] using hadd.insertString "typ" typ

end Header

theorem Issuer.splitDots_segment (bytes : Bytes) :
    splitDots (Issuer.segment bytes) = [Issuer.segment bytes] :=
  splitDots_dotless (Base64Url.dot_notMem_encode _)

end TokenSeal
