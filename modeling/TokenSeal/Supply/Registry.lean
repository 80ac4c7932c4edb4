import TokenSeal.Algorithm.Catalog
import TokenSeal.Supply.Collection
/-!
A supply of algorithms. A registry is a collection of algorithms; one with the built-in algorithms
in front keeps the first algorithm of each family and code, so none of these can be replaced.
-/

namespace TokenSeal

instance : Disposable Algorithm := ⟨id⟩

namespace Supply

def addItems {α : Type} (s : Supply α) (items : List α) : List ItemId × Supply α :=
  ((List.range items.length).map (s.items.length + ·), { s with items := s.items ++ items })

/-- The built-in algorithms followed by those of further sources, which the registry owns. -/
def registryWith (s : Supply Algorithm) (extra : List SourceId) :
    Except Fault (CollectionId × Supply Algorithm) :=
  let (ids, s) := s.addItems Algorithm.builtin
  let (builtin, s) := s.addSource ids true
  s.collect ((builtin :: extra).map (⟨·, true⟩)) (some Algorithm.familyCode)

def algorithms (s : Supply Algorithm) (id : CollectionId) :
    Except Fault (List Algorithm) × Supply Algorithm :=
  let (ids, s) := s.read id
  (ids.map s.lookup, s)

end Supply

end TokenSeal
