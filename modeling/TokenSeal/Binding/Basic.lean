import TokenSeal.Algorithm.Basic
import TokenSeal.Key.Basic
/-!
Whether a key and an algorithm belong together.
-/

namespace TokenSeal

/-- An algorithm of the family takes a key of its type and of a legal size. -/
def checkBinding (family : Family) (k : SecretKey) (a : Algorithm) : Except Fault Unit := do
  if a.family ≠ family then throw (.familyMismatch a.code family)
  let t ← k.effectiveType
  if !a.accepts t then throw (.keyTypeMismatch a.code t)
  let bits ← k.sizeBits
  if !a.isLegalSize bits then throw (.invalidKeySize a.code bits)

end TokenSeal
