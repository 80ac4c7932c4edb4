import TokenSeal.Algorithm.Catalog
import TokenSeal.Binding.Basic
/-!
Choosing the key for an algorithm out of a list. The first key that fits is taken; its size is
checked after that, and no other key is tried.
-/

namespace TokenSeal

/-- What a key is wanted for. A key that makes tokens has to be valid and meant for it. -/
inductive Purpose where
  | encode (now : Int)
  | decode
deriving DecidableEq, Repr

structure KeySelector where
  /-- The id of the one key that will do. -/
  kid : Option String
  purpose : Purpose
deriving DecidableEq, Repr

/-- Whether a key fits. An id settles the matter, whatever the hints say. -/
def isCandidate (a : Algorithm) (s : KeySelector) (k : SecretKey) : Bool :=
  if k.isDisposed ∨ !a.accepts k.profile.effective then false
  else
    match s.kid, s.purpose with
    | some wanted, _ => k.id = some wanted
    | none, .decode => true
    | none, .encode now => k.metadata.isValidAt now && k.metadata.usage.all (·.permits a.family)

/-- The keys to try, in order. An algorithm without keys has the empty key. -/
def candidates (a : Algorithm) (keys : List SecretKey) (s : KeySelector) : List SecretKey :=
  if a.keyType = .none then [SecretKey.empty] else keys.filter (isCandidate a s)

def selectKey (a : Algorithm) (keys : List SecretKey) (s : KeySelector) : Except Fault SecretKey :=
  match candidates a keys s with
  | k :: _ => .ok k
  | [] => .error (.noMatchingKey a.code)

/-- Finds an algorithm and a key for it, and binds them. -/
def resolve {β : Type} (bind : SecretKey → Algorithm → Except Fault β) (family : Family)
    (known : List Algorithm) (code : String) (keys : List SecretKey) (s : KeySelector) :
    Except Fault β := do
  let a ← Algorithm.find known family code
  let k ← selectKey a keys s
  bind k a

/-- Finds an algorithm and binds it to a given key, or to the empty key if it takes none. -/
def resolveWithKey {β : Type} (bind : SecretKey → Algorithm → Except Fault β) (family : Family)
    (known : List Algorithm) (code : String) (k : SecretKey) : Except Fault β := do
  let a ← Algorithm.find known family code
  bind (if a.keyType = .none then SecretKey.empty else k) a

end TokenSeal
