import TokenSeal.Deflate.Deflate
/-!
Coders that get through their input in turns. A turn is offered the rest of the input and some room,
and what a coder takes and puts out in one turn is up to the coder.
-/

namespace TokenSeal.Deflate

inductive Status where
  | more
  /-- Nothing could be done. -/
  | stuck
  | ended
  | failed
deriving DecidableEq, Repr

/-- What a turn did: how much of the input it took, and what it put out. -/
structure Turn (σ : Type) (input : Bytes) (room : Nat) where
  state : σ
  status : Status
  taken : Nat
  given : Bytes
  taken_le : taken ≤ input.length
  given_le : given.length ≤ room

structure Coder (σ : Type) where
  start : σ
  turn : σ → (input : Bytes) → (room : Nat) → Turn σ input room

namespace Ending

def status : Ending → Status
  | finished _ => .ended
  | truncated => .stuck
  | invalid => .failed
  | full => .more

def taken : Ending → Nat
  | finished used => used
  | _ => 0

end Ending

/-- An inflater that reads its whole input in every turn and skips what it has put out before. It
takes nothing until the stream ends. -/
def inflater : Coder Nat where
  start := 0
  turn skipped input room :=
    let (out, ending) := inflateWithin (skipped + room) input
    { state := skipped + room
      status := ending.status
      taken := min ending.taken input.length
      given := (out.drop skipped).take room
      taken_le := Nat.min_le_right ..
      given_le := List.length_take_le .. }

/-- A deflater that takes its whole input in the first turn and holds back the stream made of it. -/
def deflater (deflate : Bytes → Bytes) : Coder (Option Bytes) where
  start := none
  turn pending input room :=
    let rest := pending.getD (deflate input)
    { state := some (rest.drop room)
      status := if rest.length ≤ room then .ended else .more
      taken := input.length
      given := rest.take room
      taken_le := Nat.le_refl _
      given_le := List.length_take_le .. }

end TokenSeal.Deflate
