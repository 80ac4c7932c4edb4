import TokenSeal.Supply.Basic
/-!
Making, reading and disposing of collections. Reading a stale collection merges its sources anew;
if one of them is gone the read fails and the collection stays stale.
-/

namespace TokenSeal.Supply

variable {α : Type}

/-- The items whose name has not come before. -/
def firstOfEach (nameOf : ItemId → String) : List String → List ItemId → List ItemId
  | _, [] => []
  | seen, i :: rest =>
    if nameOf i ∈ seen then firstOfEach nameOf seen rest
    else i :: firstOfEach nameOf (nameOf i :: seen) rest

/-- The items of all members in order, with a naming the first of each name. -/
def merge (s : Supply α) (members : List Membership) (naming : Option (α → String)) :
    Except Fault (List ItemId) := do
  let lists ← members.mapM fun m => s.sourceItems m.source
  let all := lists.flatten
  match naming with
  | none => return all
  | some f => return firstOfEach (fun i => (s.items[i]?).elim "" f) [] all

/-- Makes a collection of sources, which must all be there. -/
def collect (s : Supply α) (members : List Membership) (naming : Option (α → String)) :
    Except Fault (CollectionId × Supply α) := do
  let items ← s.merge members naming
  let c : Collection α := { members := members, naming := naming, items := items }
  return (s.collections.length, { s with collections := s.collections ++ [c] })

/-- Makes a collection of given items, with a source of its own. -/
def collectItems (s : Supply α) (items : List ItemId) (owns : Bool) : CollectionId × Supply α :=
  let (source, s) := s.addSource items owns
  let c : Collection α := { members := [⟨source, true⟩], naming := none, items := items }
  (s.collections.length, { s with collections := s.collections ++ [c] })

def read (s : Supply α) (id : CollectionId) : Except Fault (List ItemId) × Supply α :=
  match s.collections[id]? with
  | none => (.error (.disposed .collection), s)
  | some c =>
    if c.disposed then (.error (.disposed .collection), s)
    else if c.stale then
      match s.merge c.members c.naming with
      | .error e => (.error e, s)
      | .ok items =>
        let c := { c with items := items, stale := false, rebuilds := c.rebuilds + 1 }
        (.ok items, { s with collections := s.collections.set id c })
    else (.ok c.items, s)

/-- Disposes of a collection and of the sources it owns. -/
def disposeCollection [Disposable α] (s : Supply α) (id : CollectionId) : Supply α :=
  match s.collections[id]? with
  | none => s
  | some c =>
    if c.disposed then s
    else
      let s := { s with collections := s.collections.set id { c with disposed := true, items := [] } }
      (c.members.filter (·.owned)).foldl (fun s m => s.disposeSource m.source) s

/-- A text that shows the state of a collection but not its items. -/
def inspectCollection (c : Collection α) : String :=
  "Collection \x7b sources: " ++ toString c.members.length ++ ", rebuilds: " ++ toString c.rebuilds ++
    ", disposed: " ++ toString c.disposed ++ " \x7d"

end TokenSeal.Supply
