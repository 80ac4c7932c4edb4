import TokenSeal.Cipher.Aes
/-!
Key wrapping: six passes over the eight-byte pieces of a key, each of which enciphers a running
register with a piece. The register starts at a fixed value, and unwrapping checks that it comes
back to it.
-/

namespace TokenSeal.KeyWrap

def initialRegister : Bytes := List.replicate 8 0xa6

/-- One pass from step `t`, with the pieces done so far in reverse. -/
def wrapPass (k : Aes.Schedule) : Nat → Bytes → List Bytes → List Bytes → Bytes × List Bytes
  | _, register, done, [] => (register, done.reverse)
  | t, register, done, piece :: rest =>
    let b := k.encrypt (register ++ piece)
    wrapPass k (t + 1) (Bytes.xor (b.take 8) (Bytes.ofNat 8 t)) (b.drop 8 :: done) rest

def wrapPasses (k : Aes.Schedule) : Nat → Nat → Bytes → List Bytes → Bytes × List Bytes
  | 0, _, register, pieces => (register, pieces)
  | n + 1, t, register, pieces =>
    let (register, pieces) := wrapPass k t register [] pieces
    wrapPasses k n (t + pieces.length) register pieces

/-- Wraps a key whose length is a multiple of eight. -/
def wrap (k : Aes.Schedule) (key : Bytes) : Bytes :=
  let (register, pieces) := wrapPasses k 6 1 initialRegister (chunks 8 key)
  register ++ pieces.flatten

/-- Undoes a pass. The pieces come in reverse, and `t` is its last step. -/
def unwrapPass (k : Aes.Schedule) : Nat → Bytes → List Bytes → List Bytes → Bytes × List Bytes
  | _, register, done, [] => (register, done.reverse)
  | t, register, done, piece :: rest =>
    let b := k.decrypt (Bytes.xor register (Bytes.ofNat 8 t) ++ piece)
    unwrapPass k (t - 1) (b.take 8) (b.drop 8 :: done) rest

def unwrapPasses (k : Aes.Schedule) : Nat → Nat → Bytes → List Bytes → Bytes × List Bytes
  | 0, _, register, pieces => (register, pieces)
  | n + 1, t, register, pieces =>
    let (register, pieces) := unwrapPass k t register [] pieces
    unwrapPasses k n (t - pieces.length) register pieces

/-- Unwraps; fails unless at least two whole pieces follow the register and it checks. -/
def unwrap? (k : Aes.Schedule) (wrapped : Bytes) : Option Bytes :=
  if wrapped.length < 24 ∨ wrapped.length % 8 ≠ 0 then none
  else
    let pieces := chunks 8 (wrapped.drop 8)
    let (register, pieces) := unwrapPasses k 6 (6 * pieces.length) (wrapped.take 8) pieces.reverse
    if register = initialRegister then some pieces.reverse.flatten else none

end TokenSeal.KeyWrap
