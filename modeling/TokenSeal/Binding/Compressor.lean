import TokenSeal.Binding.Basic
import TokenSeal.Deflate.Coder
import TokenSeal.Memory.Pool
/-!
Compression of content, with a limit on what comes out when it is undone.
-/

namespace TokenSeal

structure Compressor where
  algorithm : Algorithm
  method : Compression
  /-- The most bytes to decompress to. -/
  limit : Nat

namespace Compressor

def defaultLimit : Nat := 10 * 1024 * 1024

def bind (limit : Nat) (k : SecretKey) (a : Algorithm) : Except Fault Compressor := do
  checkBinding .compression k a
  match a.method with
  | .compression m => return ⟨a, m, limit⟩
  | _ => throw (.familyMismatch a.code .compression)

def isIdentity (c : Compressor) : Bool := c.method = .identity

/-- Compresses with a deflater that is given. -/
def compress (c : Compressor) (data : Bytes) (deflate : Bytes → Bytes := Deflate.deflate) : Bytes :=
  match c.method with
  | .identity => data
  | .deflate => deflate data

/-- The content is inflated one window at a time, so a stream is read up to the end of the window
in which its output passes the limit. -/
def inflateLimit (limit : Nat) : Nat :=
  Deflate.windowSize * (limit / Deflate.windowSize + 1)

def inflate (limit : Nat) (data : Bytes) : Except Fault Bytes :=
  let (out, ending) := Deflate.inflateWithin (inflateLimit limit) data
  let tooLong : Bool := limit < out.length
  match ending with
  | .full => .error (.format .inflatedTooLong)
  | .invalid => .error (.format .deflateData)
  | .truncated => .error (.format (if tooLong then .inflatedTooLong else .deflateTruncated))
  | .finished used =>
    if tooLong then .error (.format .inflatedTooLong)
    else if used ≠ data.length then .error (.format .deflateTrailing)
    else .ok out

def decompress (c : Compressor) (data : Bytes) : Except Fault Bytes :=
  match c.method with
  | .identity =>
    if c.limit < data.length then .error (.format .payloadTooLong) else .ok data
  | .deflate => inflate c.limit data

/-- Decompresses unless told not to; only inflating takes long enough to be told. -/
def decompressUnless (c : Compressor) (cancelled : Bool) (data : Bytes) : Except Fault Bytes :=
  if cancelled ∧ c.method = .deflate then .error .cancelled else c.decompress data

/-! ### Chunks of a loan -/

/-- How many bytes a loan grows by at a time. -/
def chunkSize : Nat := 16 * 1024

section Chunks

variable {σ : Type}

/-- A loan after a turn that put its output into a new chunk at the end. -/
structure Grown (σ : Type) (input : Bytes) (chunk : Nat) where
  turn : Deflate.Turn σ input chunk
  /-- The loan with all of the chunk. -/
  whole : Loan
  /-- The loan without the room that was left. -/
  cut : Loan
  pool : Pool

def grow (z : Deflate.Coder σ) (chunk : Nat) (input : Bytes) (s : σ) (l : Loan) (p : Pool) :
    Grown σ input chunk :=
  let start := l.buffer.length
  let t := z.turn s input chunk
  let (l, p) := l.resize p (start + chunk)
  let l := l.write start t.given
  ⟨t, l, l.truncate (start + t.given.length), p⟩

theorem length_cut_grow (z : Deflate.Coder σ) (chunk : Nat) (input : Bytes) (s : σ) (l : Loan)
    (p : Pool) : (grow z chunk input s l p).cut.buffer.length =
      l.buffer.length + (grow z chunk input s l p).turn.given.length := by
  have hroom : (z.turn s input chunk).given.length ≤ chunk := (z.turn s input chunk).given_le
  have hlength : (l.resize p (l.buffer.length + chunk)).1.buffer.length =
      l.buffer.length + chunk :=
    Buffer.length_resize _ _
  simp only [grow, Loan.truncate, Loan.write, Buffer.truncate, Buffer.write, hlength]
  omega

/-- Deflates until the stream ends, if it does within so many turns: nothing but the coder sees to
it that a stream ends at all. -/
def deflateInto (z : Deflate.Coder σ) (chunk : Nat) (data : Bytes) :
    (turns : Nat) → σ → (taken : Nat) → Loan → Pool → Option (Except Fault Unit × Loan × Pool)
  | 0, _, _, _, _ => none
  | turns + 1, s, taken, l, p =>
    let g := grow z chunk (data.drop taken) s l p
    match g.turn.status with
    | .failed => some (.error (.format .deflateFailed), g.whole, g.pool)
    | .ended => some (.ok (), g.cut, g.pool)
    | .more => deflateInto z chunk data turns g.turn.state (taken + g.turn.taken) g.cut g.pool
    | .stuck => some (.error (.format .deflateStuck), g.cut, g.pool)

/-- Inflates until the stream ends, and gives back how much of the input was taken. Before every
turn it looks whether to go on. -/
def inflateInto (z : Deflate.Coder σ) (limit chunk : Nat) (cancelled : Nat → Bool) (data : Bytes)
    (turns : Nat) (s : σ) (taken : Nat) (l : Loan) (p : Pool) :
    Except Fault Nat × Loan × Pool :=
  if cancelled turns then (.error .cancelled, l, p)
  else
    let g := grow z chunk (data.drop taken) s l p
    if g.turn.status = .failed then (.error (.format .deflateData), g.whole, g.pool)
    else if limit < g.cut.buffer.length then (.error (.format .inflatedTooLong), g.cut, g.pool)
    else if g.turn.status = .ended then (.ok (taken + g.turn.taken), g.cut, g.pool)
    else if g.turn.status = .more ∧ (0 < g.turn.given.length ∨ 0 < g.turn.taken) then
      inflateInto z limit chunk cancelled data (turns + 1) g.turn.state (taken + g.turn.taken) g.cut
        g.pool
    else (.error (.format .deflateTruncated), g.cut, g.pool)
termination_by data.length - taken + (limit + 1 - l.buffer.length)
decreasing_by
  have htaken := g.turn.taken_le
  have hlength := length_cut_grow z chunk (data.drop taken) s l p
  rw [List.length_drop] at htaken
  simp only [g] at *
  omega

/-- Replaces what is in a loan by the compressed data. -/
def compressInto (c : Compressor) (z : Deflate.Coder σ) (chunk turns : Nat) (data : Bytes) (l : Loan)
    (p : Pool) : Option (Except Fault Unit × Loan × Pool) :=
  let l := l.truncate 0
  match c.method with
  | .identity =>
    let (l, p) := l.append p data
    some (.ok (), l, p)
  | .deflate => deflateInto z chunk data turns z.start 0 l p

/-- Replaces what is in a loan by the content. -/
def decompressInto (c : Compressor) (z : Deflate.Coder σ) (chunk : Nat) (cancelled : Nat → Bool)
    (data : Bytes) (l : Loan) (p : Pool) : Except Fault Unit × Loan × Pool :=
  let l := l.truncate 0
  match c.method with
  | .identity =>
    if c.limit < data.length then (.error (.format .payloadTooLong), l, p)
    else
      let (l, p) := l.append p data
      (.ok (), l, p)
  | .deflate =>
    match inflateInto z c.limit chunk cancelled data 0 z.start 0 l p with
    | (.error cause, l, p) => (.error cause, l, p)
    | (.ok taken, l, p) =>
      if taken ≠ data.length then (.error (.format .deflateTrailing), l, p) else (.ok (), l, p)

end Chunks

end Compressor

end TokenSeal
