import TokenSeal.Bytes
/-!
Randomness as a stream of bytes with a place in it. Drawing hands back the stream further on, so
a result that draws is a function of the stream, also when it fails.

The stream never ends and never fails. A random source that cannot deliver is an event of the
system around the program: everything here is about runs in which the source answers.
-/

namespace TokenSeal

structure Entropy where
  stream : Nat → UInt8
  position : Nat

/-- A computation that may draw random bytes and may fail. -/
abbrev Draw (ε α : Type) := ExceptT ε (StateM Entropy) α

namespace Entropy

/-- Mixes the bits of a number and keeps eight of them. -/
def scramble (n : UInt64) : UInt8 :=
  let z := (n ^^^ (n >>> 30)) * 0xbf58476d1ce4e5b9
  let z := (z ^^^ (z >>> 27)) * 0x94d049bb133111eb
  (z ^^^ (z >>> 31)).toUInt8

/-- A stream that a seed settles: even, but no secret. -/
def scrambled (seed : Nat) : Entropy :=
  let start := UInt64.ofNat seed * 0xd1342543de82ef95
  ⟨fun i => scramble (start + 0x9e3779b97f4a7c15 * (UInt64.ofNat i + 1)), 0⟩

def take (e : Entropy) (n : Nat) : Bytes :=
  (List.range n).map fun i => e.stream (e.position + i)

def advance (e : Entropy) (n : Nat) : Entropy :=
  { e with position := e.position + n }

end Entropy

namespace Draw

/-- The next `n` bytes of the stream. The random source is taken to deliver them always. -/
def bytes {ε : Type} (n : Nat) : Draw ε Bytes :=
  fun e => (.ok (e.take n), e.advance n)

def ofExcept {ε α : Type} (x : Except ε α) : Draw ε α :=
  fun e => (x, e)

/-- A number below `bound`, drawn with eight spare bytes so that all are nearly equally likely. -/
def below {ε : Type} (bound : Nat) : Draw ε Nat :=
  fun e =>
    let n := Bytes.widthOf bound + 8
    (.ok (Bytes.toNat (e.take n) % bound), e.advance n)

def mapError {ε δ α : Type} (f : ε → δ) (x : Draw ε α) : Draw δ α :=
  fun e =>
    match x e with
    | (.ok a, e) => (.ok a, e)
    | (.error err, e) => (.error (f err), e)

end Draw

end TokenSeal
