import TokenSeal.Token.Header
/-!
Edits of a header by name. Each hands back the value that the name had before.
-/

namespace TokenSeal

namespace Members

/-- Gives `name` a value as `insert` does, and hands back the one it had. -/
def exchange : Members → String → Json → Option Json × Members
  | [], name, v => (none, [(name, v)])
  | m :: rest, name, v =>
    if m.1 = name then (some m.2, (name, v) :: rest)
    else
      let (old, rest) := exchange rest name v
      (old, m :: rest)

/-- Takes the first member of a name out, and hands back its value. -/
def extract : Members → String → Option Json × Members
  | [], _ => (none, [])
  | m :: rest, name =>
    if m.1 = name then (some m.2, rest)
    else
      let (old, rest) := extract rest name
      (old, m :: rest)

theorem exchange_snd (ms : Members) (name : String) (v : Json) :
    (ms.exchange name v).2 = ms.insert name v := by
  induction ms with
  | nil => rfl
  | cons m rest ih => by_cases h : m.1 = name <;> simp [exchange, insert, h, ih]

theorem extract_snd_sublist (ms : Members) (name : String) :
    List.Sublist (ms.extract name).2 ms := by
  induction ms with
  | nil => exact List.Sublist.slnil
  | cons m rest ih =>
    by_cases h : m.1 = name
    · simp [extract, h]
    · simpa [extract, h] using ih

end Members

/-- An edit by name. To give a name a value while a header is made is the same edit. -/
inductive HeaderEdit where
  | insert (name : String) (v : Json)
  | remove (name : String)

namespace Header

def exchange (h : Header) (name : String) (v : Json) : Option Json × Header :=
  ((h.members.exchange name v).1, ⟨(h.members.exchange name v).2, by
    rw [Members.exchange_snd]
    exact Members.nodup_insert h.nodup name v⟩)

def extract (h : Header) (name : String) : Option Json × Header :=
  ((h.members.extract name).1, ⟨(h.members.extract name).2,
    h.nodup.sublist ((Members.extract_snd_sublist h.members name).map _)⟩)

def edit (h : Header) : HeaderEdit → Option Json × Header
  | .insert name v => h.exchange name v
  | .remove name => h.extract name

/-- The header that is made by some edits, one after another. -/
def edited (edits : List HeaderEdit) : Header :=
  edits.foldl (fun h e => (h.edit e).2) empty

end Header

end TokenSeal
