import TokenSeal.Fault
/-!
Items that sources publish and collections merge. A source holds a list of items and a version
that counts its changes. A collection joins the items of several sources in order, possibly with
the first item of each name only; it is stale from a change until it is next read. Everything
that can be told apart has a number, and a supply is the state of it all.
-/

namespace TokenSeal

class Disposable (α : Type) where
  dispose : α → α

abbrev ItemId := Nat

abbrev SourceId := Nat

abbrev CollectionId := Nat

/-- A source that owns its items disposes of them with itself, and of those it drops. -/
structure Source where
  items : List ItemId
  owns : Bool
  disposed : Bool := false
  version : Nat := 0
deriving DecidableEq, Repr

/-- A source in a collection; an owned one is disposed of with the collection. -/
structure Membership where
  source : SourceId
  owned : Bool
deriving DecidableEq, Repr

structure Collection (α : Type) where
  members : List Membership
  /-- Items of one name count as the same; without names all items are kept. -/
  naming : Option (α → String)
  items : List ItemId
  stale : Bool := false
  rebuilds : Nat := 1
  version : Nat := 0
  disposed : Bool := false

inductive Subject where
  | source (id : SourceId)
  | collection (id : CollectionId)
deriving DecidableEq, Repr

/-- A listener with the versions it has been told, the latest first. -/
structure Listener where
  subject : Subject
  heard : List Nat := []
deriving DecidableEq, Repr

structure Supply (α : Type) where
  items : List α := []
  sources : List Source := []
  collections : List (Collection α) := []
  listeners : List Listener := []

namespace Supply

variable {α : Type}

def empty : Supply α := {}

def lookup (s : Supply α) (ids : List ItemId) : List α :=
  ids.filterMap (s.items[·]?)

def addItem (s : Supply α) (a : α) : ItemId × Supply α :=
  (s.items.length, { s with items := s.items ++ [a] })

def addSource (s : Supply α) (items : List ItemId) (owns : Bool) : SourceId × Supply α :=
  (s.sources.length, { s with sources := s.sources ++ [⟨items, owns, false, 0⟩] })

def addListener (s : Supply α) (subject : Subject) : Nat × Supply α :=
  (s.listeners.length, { s with listeners := s.listeners ++ [⟨subject, []⟩] })

/-- The items a source holds, unless it is disposed of. -/
def sourceItems (s : Supply α) (id : SourceId) : Except Fault (List ItemId) :=
  match s.sources[id]? with
  | some source => if source.disposed then .error (.disposed .dataSource) else .ok source.items
  | none => .error (.disposed .dataSource)

/-! ### Changes -/

def tell (s : Supply α) (subject : Subject) (version : Nat) : Supply α :=
  { s with
    listeners := s.listeners.map fun l =>
      if l.subject = subject then { l with heard := version :: l.heard } else l }

/-- Marks a collection stale. Only the first change since it was read counts and is told. -/
def invalidate (s : Supply α) (id : CollectionId) : Supply α :=
  match s.collections[id]? with
  | some c =>
    if c.stale then s
    else
      tell { s with collections := s.collections.set id { c with stale := true, version := c.version + 1 } }
        (.collection id) (c.version + 1)
  | none => s

/-- The collections that a source is a member of. -/
def subscribers (s : Supply α) (id : SourceId) : List CollectionId :=
  (List.range s.collections.length).filter fun i =>
    (s.collections[i]?).any fun c => c.members.any (·.source = id)

/-- Counts a change of a source and tells of it. -/
def signal (s : Supply α) (id : SourceId) : Nat × Supply α :=
  match s.sources[id]? with
  | some source =>
    let version := source.version + 1
    let s := { s with sources := s.sources.set id { source with version := version } }
    (version, (s.subscribers id).foldl invalidate (s.tell (.source id) version))
  | none => (0, s)

/-! ### Disposal -/

section
variable [Disposable α]

def disposeItem (s : Supply α) (id : ItemId) : Supply α :=
  { s with items := s.items.modify id Disposable.dispose }

def disposeItems (s : Supply α) (ids : List ItemId) : Supply α :=
  ids.foldl disposeItem s

/-- Disposes of a source, and of its items if it owns them. -/
def disposeSource (s : Supply α) (id : SourceId) : Supply α :=
  match s.sources[id]? with
  | some source =>
    if source.disposed then s
    else
      let s := { s with sources := s.sources.set id { source with disposed := true } }
      if source.owns then s.disposeItems source.items else s
  | none => s

/-- Gives a source new items. An owning source disposes of those it does not keep. -/
def replace (s : Supply α) (id : SourceId) (items : List ItemId) : Except Fault (Supply α) :=
  match s.sources[id]? with
  | some source =>
    if source.disposed then .error (.disposed .dataSource)
    else
      let s := { s with sources := s.sources.set id { source with items := items } }
      let dropped := source.items.filter fun i => i ∉ items
      let s := if source.owns then s.disposeItems dropped else s
      .ok (s.signal id).2
  | none => .error (.disposed .dataSource)

end

end Supply

end TokenSeal
