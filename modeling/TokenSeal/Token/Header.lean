import TokenSeal.Json.Form
import TokenSeal.Json.Inspect
import TokenSeal.Text.Base64Url
import TokenSeal.Token.Error
/-!
Token headers: members in the order in which they were put in, no two of one name, and the segment
that spells them.
-/

namespace TokenSeal

namespace Members

theorem names_insert (ms : Members) (name : String) (v : Json) :
    (ms.insert name v).names = if name ∈ ms.names then ms.names else ms.names ++ [name] := by
  induction ms with
  | nil => simp [insert, names]
  | cons m rest ih =>
    simp only [names] at ih ⊢
    by_cases h : m.1 = name
    · simp [insert, h]
    · have h' : ¬ name = m.1 := fun e => h e.symm
      by_cases hm : name ∈ rest.map (·.1) <;> simp_all [insert]

theorem nodup_insert {ms : Members} (h : ms.names.Nodup) (name : String) (v : Json) :
    (ms.insert name v).names.Nodup := by
  rw [names_insert]
  split
  · exact h
  · next hn => exact List.nodup_append.2 ⟨h, by simp, by grind⟩

theorem nodup_erase {ms : Members} (h : ms.names.Nodup) (name : String) :
    (ms.erase name).names.Nodup :=
  h.sublist (List.Sublist.map _ List.filter_sublist)

end Members

structure Header where
  members : Members
  nodup : members.names.Nodup

namespace Header

def empty : Header := ⟨[], List.nodup_nil⟩

def insert (h : Header) (name : String) (v : Json) : Header :=
  ⟨h.members.insert name v, Members.nodup_insert h.nodup name v⟩

def insertAll (h : Header) (ms : Members) : Header :=
  ms.foldl (fun h m => h.insert m.1 m.2) h

def erase (h : Header) (name : String) : Header :=
  ⟨h.members.erase name, Members.nodup_erase h.nodup name⟩

def get? (h : Header) (name : String) : Option Json := h.members.get? name

def text? (h : Header) (name : String) : Option String := (h.get? name).bind Json.asString?

def contains (h : Header) (name : String) : Bool := (h.get? name).isSome

def names (h : Header) : List String := h.members.names

def size (h : Header) : Nat := h.members.length

def isEmpty (h : Header) : Bool := h.members.isEmpty

def toJson (h : Header) : Json := .object h.members

def render (h : Header) : String := h.toJson.render

/-- Adds the members of another header that have new names. -/
def addMissing (h extra : Header) : Header :=
  extra.members.foldl (fun h m => if h.contains m.1 then h else h.insert m.1 m.2) h

/-! ### Segments -/

def toSegment (h : Header) : String := Base64Url.encode (Bytes.ofText h.render)

def ofText (text : String) : Except TokenError Header :=
  match Json.parse? text with
  | none => .error .headerJson
  | some (.object members) => .ok (empty.insertAll members)
  | some _ => .error (.malformed .headerNotObject)

def ofSegment (segment : String) : Except TokenError Header := do
  let bytes ← (Base64Url.decode segment).mapError .fault
  match Bytes.toText? bytes with
  | some text => ofText text
  | none => throw .headerJson

/-! ### Well-known members -/

def alg? (h : Header) : Option String := h.text? "alg"

def enc? (h : Header) : Option String := h.text? "enc"

def zip? (h : Header) : Option String := h.text? "zip"

def kid? (h : Header) : Option String := h.text? "kid"

def cty? (h : Header) : Option String := h.text? "cty"

def typ? (h : Header) : Option String := h.text? "typ"

/-- The names that have a meaning of their own, which `crit` may not list. -/
def registeredNames : List String :=
  ["alg", "enc", "zip", "kid", "cty", "typ", "crit", "epk", "apu", "apv", "iv", "tag", "p2s", "p2c",
    "jku", "jwk", "x5u", "x5c", "x5t", "x5t#S256"]

/-- Removes a front part of a text that has it. -/
def dropFront (front text : List Char) : List Char :=
  if text.take front.length = front then text.drop front.length else text

/-- Whether a content type names a token. ASCII letters count the same in both cases. -/
def namesToken (cty : String) : Bool :=
  (dropFront "application/".toList cty.toList).map Char.toLower = "jwt".toList

def isNested (h : Header) : Bool := h.cty?.any namesToken

def criticalName (h : Header) : Json → Except TokenError String
  | .string name =>
    if name ∈ registeredNames then .error (.malformed (.criticalRegistered name))
    else if h.contains name then .ok name
    else .error (.malformed (.criticalMissing name))
  | _ => .error (.malformed .criticalEntry)

/-- The names that a recipient has to understand. -/
def critical (h : Header) : Except TokenError (List String) :=
  match h.get? "crit" with
  | none => .ok []
  | some (.array (v :: rest)) => (v :: rest).mapM h.criticalName
  | some _ => .error (.malformed .criticalList)

/-- A text that shows all members with their kinds. -/
def inspect (h : Header) : String :=
  "Header \x7b fields: \x7b" ++ ", ".intercalate (Json.inspectMembers h.members) ++ "\x7d \x7d"

end Header

end TokenSeal
