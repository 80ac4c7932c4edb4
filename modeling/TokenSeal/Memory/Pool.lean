import TokenSeal.Entropy
import TokenSeal.Memory.Buffer
import TokenSeal.Text.Base64Url
/-!
A pool that lends buffers. A buffer comes back when its loan ends, wiped if the loan was
sensitive, and is lent again to whoever asks for no more room than it has. A loan that outgrows
its buffer moves to a new one, and the old one goes back the same way.
-/

namespace TokenSeal

structure Pool where
  /-- The most buffers to keep for reuse. -/
  limit : Nat
  idle : List Buffer := []
  outstanding : Nat := 0
  wiped : Nat := 0

structure Loan where
  buffer : Buffer
  sensitive : Bool

namespace Pool

def defaultLimit : Nat := 32

/-- Removes the item at a place; the last item moves there. -/
def takeOut {α : Type} (items : List α) (i : Nat) : List α :=
  match items.getLast? with
  | some last => (items.set i last).dropLast
  | none => []

/-- The first idle buffer with room for `size` bytes, if any, and the others. -/
def reuse? (p : Pool) (size : Nat) : Option (Buffer × List Buffer) :=
  match p.idle.findIdx? fun b => decide (size ≤ b.capacity) with
  | some i => (p.idle[i]?).map (·, takeOut p.idle i)
  | none => none

/-- Lends a buffer of `size` zero bytes. -/
def lend (p : Pool) (size : Nat) (sensitive : Bool) : Loan × Pool :=
  match p.reuse? size with
  | some (b, rest) =>
    (⟨b.resize size, sensitive⟩, { p with idle := rest, outstanding := p.outstanding + 1 })
  | none =>
    (⟨(Buffer.allocate size).resize size, sensitive⟩, { p with outstanding := p.outstanding + 1 })

/-- Takes a buffer back. A full pool drops it. -/
def store (p : Pool) (b : Buffer) (sensitive : Bool) : Pool :=
  let idle :=
    if p.idle.length < p.limit then p.idle ++ [if sensitive then b.wipe else b.clear] else p.idle
  { p with idle := idle, wiped := if sensitive then p.wiped + 1 else p.wiped }

def takeBack (p : Pool) (l : Loan) : Pool :=
  let p := p.store l.buffer l.sensitive
  { p with outstanding := p.outstanding - 1 }

/-- Lends a sensitive buffer of random bytes. -/
def lendRandom (p : Pool) (size : Nat) : Draw Fault (Loan × Pool) := do
  let bytes ← Draw.bytes size
  let (l, p) := p.lend size true
  return (⟨l.buffer.overwrite bytes, true⟩, p)

/-- Decodes a text into a sensitive buffer. A loan made in vain ends at once. -/
def lendDecoded (p : Pool) (text : String) : Except Fault Loan × Pool :=
  match Base64Url.decodedLength text.utf8ByteSize with
  | .error e => (.error e, p)
  | .ok size =>
    let (l, p) := p.lend size true
    match Base64Url.decodeInto text l.buffer.visible with
    | .error e => (.error e, p.takeBack l)
    | .ok (bytes, _) => (.ok ⟨l.buffer.overwrite bytes, true⟩, p)

end Pool

namespace Loan

def visible (l : Loan) : Bytes := l.buffer.visible

/-- Makes room for more bytes: in a new buffer, at least twice as large, if there is none. -/
def reserve (p : Pool) (l : Loan) (more : Nat) : Loan × Pool :=
  let needed := l.buffer.length + more
  if needed ≤ l.buffer.capacity then (l, p)
  else
    let grown := (Buffer.allocate (max needed (2 * l.buffer.capacity))).append l.visible
    ({ l with buffer := grown }, p.store l.buffer l.sensitive)

def append (p : Pool) (l : Loan) (data : Bytes) : Loan × Pool :=
  let (l, p) := l.reserve p data.length
  ({ l with buffer := l.buffer.append data }, p)

def truncate (l : Loan) (n : Nat) : Loan :=
  { l with buffer := l.buffer.truncate n }

def resize (p : Pool) (l : Loan) (n : Nat) : Loan × Pool :=
  let (l, p) := l.reserve p (n - l.buffer.length)
  ({ l with buffer := l.buffer.resize n }, p)

def write (l : Loan) (place : Nat) (data : Bytes) : Loan :=
  { l with buffer := l.buffer.write place data }

def fill (l : Loan) (b : UInt8) : Loan :=
  { l with buffer := l.buffer.overwrite (List.replicate l.buffer.length b) }

end Loan

end TokenSeal
