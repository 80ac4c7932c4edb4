import TokenSeal.Bytes
import TokenSeal.Deflate.Tables
/-!
Reading a DEFLATE stream. Inflating stops at the end of the stream, where the input ends early,
at the first thing that has no meaning, or where the output would outgrow a bound. Errors are
found as soon as the bits read so far have no continuation.
-/

namespace TokenSeal.Deflate

inductive Halt where
  | truncated
  | invalid
deriving DecidableEq, Repr

/-- How inflating ended. A finished stream says how many input bytes it took. -/
inductive Ending where
  | finished (used : Nat)
  | truncated
  | invalid
  | full
deriving DecidableEq, Repr

def Halt.ending : Halt → Ending
  | truncated => .truncated
  | invalid => .invalid

/-- What was read and the bit position after it. -/
abbrev Read (α : Type) := Except Halt (α × Nat)

@[inline] def bitAt (data : ByteArray) (pos : Nat) : Nat :=
  ((data.get! (pos / 8)).toNat >>> (pos % 8)) % 2

/-- Reads `n` bits, the lowest first. -/
def readBits (data : ByteArray) (pos : Nat) : Nat → Read Nat
  | 0 => .ok (0, pos)
  | n + 1 =>
    if pos < 8 * data.size then
      match readBits data (pos + 1) n with
      | .ok (high, next) => .ok (bitAt data pos + 2 * high, next)
      | .error h => .error h
    else .error .truncated

/-- A prefix code: how many codes there are of each length, and the symbols in code order. -/
structure Code where
  counts : Array Nat
  symbols : Array Nat
deriving Repr, Inhabited

namespace Code

/-- The code in which each symbol has the given length, zero for none. -/
def ofLengths (lengths : List Nat) : Code :=
  let indexed := lengths.zipIdx
  { counts := ((List.range (maxCodeLength + 1)).map fun n =>
      if n = 0 then 0 else lengths.countP (· = n)).toArray
    symbols := ((List.range maxCodeLength).flatMap fun n =>
      (indexed.filter (·.1 = n + 1)).map (·.2)).toArray }

def size (c : Code) : Nat := c.symbols.size

/-- How much of the space of codes of 15 bits is taken. -/
def weight (c : Code) : Nat :=
  (List.range maxCodeLength).foldl (fun w n => w + c.counts.getD (n + 1) 0 * Nat.pow 2 (maxCodeLength - (n + 1))) 0

/-- Whether every string of bits starts with a code. -/
def isComplete (c : Code) : Bool := c.weight = Nat.pow 2 maxCodeLength

/-- Reads one symbol. `code` holds the bits so far, `first` the least code of their number and
`index` the symbols of shorter codes. -/
def readFrom (c : Code) (data : ByteArray) : Nat → Nat → Nat → Nat → Nat → Nat → Read Nat
  | 0, _, _, _, _, _ => .error .invalid
  | fuel + 1, length, pos, code, first, index =>
    if pos < 8 * data.size then
      let code := code + bitAt data pos
      let count := c.counts.getD length 0
      if code < first + count then .ok (c.symbols.getD (index + (code - first)) 0, pos + 1)
      else if c.size = 0 ∨ (c.size = 1 ∧ code ≠ 0) then .error .invalid
      else readFrom c data fuel (length + 1) (pos + 1) (2 * code) (2 * (first + count)) (index + count)
    else .error .truncated

def read (c : Code) (data : ByteArray) (pos : Nat) : Read Nat :=
  readFrom c data maxCodeLength 1 pos 0 0 0

end Code

/-- The byte `distance` places back. Zeros stand before the output. -/
@[inline] def byteBack (out : ByteArray) (distance : Nat) : UInt8 :=
  if distance ≤ out.size then out.get! (out.size - distance) else 0

/-- Appends `length` bytes from `distance` back; false if the bound stops it. -/
def copyMatch (bound distance : Nat) : Nat → ByteArray → ByteArray × Bool
  | 0, out => (out, true)
  | length + 1, out =>
    if out.size < bound then copyMatch bound distance length (out.push (byteBack out distance))
    else (out, false)

/-- How a part of a block went: the output so far, and where to go on or why not to. -/
structure Progress where
  out : ByteArray
  next : Except Ending Nat

/-- Reads what a symbol past the literals stands for: a length and a distance. -/
@[irreducible]
def readMatch (distances : Code) (data : ByteArray) (symbol pos : Nat) :
    Except Halt ((Nat × Nat) × Nat) :=
  match lengthTable[symbol - 257]? with
  | none => .error .invalid
  | some (base, extra) => do
    let (more, pos) ← readBits data pos extra
    let (symbol, pos) ← distances.read data pos
    match distanceTable[symbol]? with
    | none => .error .invalid
    | some (distance, extra) =>
      let (far, pos) ← readBits data pos extra
      return ((base + more, distance + far), pos)

def readSymbols (literals distances : Code) (data : ByteArray) (bound : Nat) :
    Nat → Nat → ByteArray → Progress
  | 0, _, out => ⟨out, .error .truncated⟩
  | fuel + 1, pos, out =>
    match literals.read data pos with
    | .error h => ⟨out, .error h.ending⟩
    | .ok (symbol, pos) =>
      if symbol < endOfBlock then
        if out.size < bound then
          readSymbols literals distances data bound fuel pos (out.push (UInt8.ofNat symbol))
        else ⟨out, .error .full⟩
      else if symbol = endOfBlock then ⟨out, .ok pos⟩
      else
        match readMatch distances data symbol pos with
        | .error h => ⟨out, .error h.ending⟩
        | .ok ((length, distance), pos) =>
          match copyMatch bound distance length out with
          | (out, true) => readSymbols literals distances data bound fuel pos out
          | (out, false) => ⟨out, .error .full⟩

def copyStored (data : ByteArray) (bound : Nat) : Nat → Nat → ByteArray → Progress
  | 0, i, out => ⟨out, .ok (8 * i)⟩
  | left + 1, i, out =>
    if i < data.size then
      if out.size < bound then copyStored data bound left (i + 1) (out.push (data.get! i))
      else ⟨out, .error .full⟩
    else ⟨out, .error .truncated⟩

/-- Reads a stored block: at a byte boundary, its length, the complement of it, and the bytes. -/
def readStored (data : ByteArray) (bound pos : Nat) (out : ByteArray) : Progress :=
  let start := 8 * ((pos + 7) / 8)
  match readBits data start 16 with
  | .error h => ⟨out, .error h.ending⟩
  | .ok (length, pos) =>
    match readBits data pos 16 with
    | .error h => ⟨out, .error h.ending⟩
    | .ok (complement, pos) =>
      if length + complement = 0xffff then copyStored data bound length (pos / 8) out
      else ⟨out, .error .invalid⟩

/-- Reads `left` more code lengths; 16 repeats the last one, 17 and 18 repeat zero. The lengths
so far are in reverse. -/
def readLengths (code : Code) (data : ByteArray) : Nat → Nat → Nat → List Nat → Read (List Nat)
  | 0, _, _, _ => .error .truncated
  | fuel + 1, left, pos, done =>
    if left = 0 then .ok (done.reverse, pos)
    else
      match code.read data pos with
      | .error h => .error h
      | .ok (symbol, pos) =>
        if symbol < 16 then readLengths code data fuel (left - 1) pos (symbol :: done)
        else if symbol = 16 ∧ done.isEmpty then .error .invalid
        else
          let extra := if symbol = 16 then 2 else if symbol = 17 then 3 else 7
          match readBits data pos extra with
          | .error h => .error h
          | .ok (more, pos) =>
            let times := more + (if symbol = 18 then 11 else 3)
            let value := if symbol = 16 then done.headD 0 else 0
            if left < times then .error .invalid
            else readLengths code data fuel (left - times) pos (List.replicate times value ++ done)

def readShortLengths (data : ByteArray) : Nat → Nat → List Nat → Read (List Nat)
  | 0, pos, done => .ok (done.reverse, pos)
  | n + 1, pos, done =>
    match readBits data pos 3 with
    | .error h => .error h
    | .ok (length, pos) => readShortLengths data n pos (length :: done)

/-- Spreads the lengths of the code-length code to their symbols. -/
def orderedLengths (lengths : List Nat) : List Nat :=
  let given := codeLengthOrder.zip lengths
  (List.range 19).map fun symbol => ((given.find? (·.1 = symbol)).map (·.2)).getD 0

/-- Whether a code has no symbol, or one whose code is a single bit. -/
def Code.isTrivial (c : Code) : Bool := c.size = 0 || (c.size = 1 && c.counts.getD 1 0 = 1)

/-- The code, unless some codes are missing or there are too many. -/
def usable (c : Code) : Except Halt Code :=
  if c.isComplete ∨ c.isTrivial then .ok c else .error .invalid

def readCodes (data : ByteArray) (pos : Nat) : Except Halt ((Code × Code) × Nat) := do
  let (literals, pos) ← readBits data pos 5
  let (distances, pos) ← readBits data pos 5
  let (shorts, pos) ← readBits data pos 4
  let literals := literals + 257
  let distances := distances + 1
  if 286 < literals ∨ 30 < distances then throw .invalid
  let (lengths, pos) ← readShortLengths data (shorts + 4) pos []
  let code := Code.ofLengths (orderedLengths lengths)
  if code.isComplete = false then throw .invalid
  let (all, pos) ← readLengths code data (literals + distances + 1) (literals + distances) pos []
  let distanceCode ← usable (Code.ofLengths (all.drop literals))
  let literalCode ← usable (Code.ofLengths (all.take literals))
  return ((literalCode, distanceCode), pos)

def fixedLiterals : Code := Code.ofLengths fixedLiteralLengths

def fixedDistances : Code := Code.ofLengths fixedDistanceLengths

def readBlock (data : ByteArray) (bound kind pos : Nat) (out : ByteArray) : Progress :=
  let fuel := 8 * data.size + 1
  if kind = 0 then readStored data bound pos out
  else if kind = 1 then readSymbols fixedLiterals fixedDistances data bound fuel pos out
  else if kind = 2 then
    match readCodes data pos with
    | .error h => ⟨out, .error h.ending⟩
    | .ok ((literals, distances), pos) =>
      readSymbols literals distances data bound fuel pos out
  else ⟨out, .error .invalid⟩

def readBlocks (data : ByteArray) (bound : Nat) : Nat → Nat → ByteArray → ByteArray × Ending
  | 0, _, out => (out, .truncated)
  | fuel + 1, pos, out =>
    match readBits data pos 1 with
    | .error h => (out, h.ending)
    | .ok (last, pos) =>
      match readBits data pos 2 with
      | .error h => (out, h.ending)
      | .ok (kind, pos) =>
        match readBlock data bound kind pos out with
        | ⟨out, .error ending⟩ => (out, ending)
        | ⟨out, .ok pos⟩ =>
          if last = 1 then (out, .finished ((pos + 7) / 8)) else readBlocks data bound fuel pos out

def inflateWithin (bound : Nat) (stream : Bytes) : Bytes × Ending :=
  let data : ByteArray := ⟨stream.toArray⟩
  let (out, ending) := readBlocks data bound (8 * data.size + 1) 0 ByteArray.empty
  (out.data.toList, ending)

/-- The longest output that a stream of a given length can have. -/
def longestOutput (length : Nat) : Nat := 8 * length * maxMatch

/-- The content of a stream that ends with the input. -/
def inflate? (stream : Bytes) : Option Bytes :=
  match inflateWithin (longestOutput stream.length) stream with
  | (out, .finished used) => if used = stream.length then some out else none
  | _ => none

/-! ### Whole streams -/

/-- A byte string as an array. -/
def packed (bytes : Bytes) : ByteArray := ⟨bytes.toArray⟩

theorem size_packed (bytes : Bytes) : (packed bytes).size = bytes.length := by
  simp [packed, ByteArray.size]

/-- At the front of some bytes stands a stream that adds `content` to the output before it and
takes so many of the bytes. -/
def Reads (before bytes content : Bytes) (used : Nat) : Prop :=
  ∃ bound, readBlocks (packed bytes) bound (8 * (packed bytes).size + 1) 0 (packed before) =
    (packed (before ++ content), .finished used)

/-- A whole stream with its content. Zeros stand before its output. -/
def Inflates (stream content : Bytes) : Prop := Reads [] stream content stream.length

theorem inflateWithin_eq {stream : Bytes} {bound : Nat} {out : ByteArray} {ending : Ending}
    (h : readBlocks (packed stream) bound (8 * (packed stream).size + 1) 0 (packed []) =
      (out, ending)) : inflateWithin bound stream = (out.data.toList, ending) := by
  have hempty : packed [] = ByteArray.empty := rfl
  rw [hempty] at h
  simp only [packed] at h
  simp only [inflateWithin, h]

theorem reads_of_inflateWithin {stream content : Bytes} {bound used : Nat}
    (h : inflateWithin bound stream = (content, .finished used)) :
    Reads [] stream content used := by
  rcases hread : readBlocks (packed stream) bound (8 * (packed stream).size + 1) 0 (packed []) with
    ⟨out, ending⟩
  rw [inflateWithin_eq hread, Prod.mk.injEq] at h
  obtain ⟨rfl, rfl⟩ := h
  exact ⟨bound, hread⟩

theorem inflates_of_inflate? {stream content : Bytes} (h : inflate? stream = some content) :
    Inflates stream content := by
  unfold inflate? at h
  split at h
  · next out used hread =>
    split at h
    · next hused =>
      cases h
      exact reads_of_inflateWithin (hused ▸ hread)
    · cases h
  · cases h

end TokenSeal.Deflate
