import TokenSeal.Binding.KeyWrapper
import TokenSeal.Binding.Resolve
import TokenSeal.Supply.Basic
/-!
What a token is made with: an algorithm, and a key or the keys to choose one from.
-/

namespace TokenSeal

inductive KeySource where
  | key (key : SecretKey)
  /-- A collection to choose from, and the id of the key to choose. -/
  | collection (id : CollectionId) (kid : Option String)

structure SigningCredentials where
  algorithm : String
  source : KeySource

namespace SigningCredentials

def unsecured : SigningCredentials := ⟨"none", .key SecretKey.empty⟩

end SigningCredentials

structure EncryptingCredentials where
  algorithm : String
  encryption : String
  compression : Option String := none
  source : KeySource
  party : PartyInfo := {}

structure Credentials where
  signing : Option SigningCredentials
  encrypting : Option EncryptingCredentials

/-- The algorithms that can be looked up; none if their registry is gone. -/
abbrev Known := Except Fault (List Algorithm)

namespace Known

def find (known : Known) (family : Family) (code : String) : Except Fault Algorithm :=
  known.bind fun all => Algorithm.find all family code

end Known

/-- The keys of each collection; none if it is gone. -/
abbrev KeyRings := CollectionId → Except Fault (List SecretKey)

def KeySource.bind {β : Type} (source : KeySource) (rings : KeyRings)
    (make : SecretKey → Algorithm → Except Fault β) (family : Family) (known : Known)
    (code : String) (now : Int) : Except Fault β :=
  match source with
  | .key k => known.bind fun all => resolveWithKey make family all code k
  | .collection id kid => do
    let keys ← rings id
    let all ← known
    resolve make family all code keys ⟨kid, .encode now⟩

end TokenSeal
