import TokenSeal.Deflate.Inflate
import TokenSeal.Deflate.Lengths
import TokenSeal.Deflate.Repeats
/-!
Writing a DEFLATE stream. A block of tokens is written with the fixed codes if it is short and with
codes made for it otherwise, and as it is if that saves nothing. Other streams would do as well:
what makes a deflater is that its streams inflate to the data.
-/

namespace TokenSeal.Deflate

/-! ### Codes -/

/-- The last entry of a table whose base is not above a value: its index, base and extra bits. -/
def entryFor (table : Array (Nat × Nat)) (value : Nat) : Nat × Nat × Nat :=
  (table.toList.zipIdx.foldl (fun found e =>
    if e.1.1 ≤ value then (e.2, e.1.1, e.1.2) else found) (0, 0, 0))

structure Coded where
  symbol : Nat
  extra : Nat
  extraBits : Nat

def codedLength (length : Nat) : Coded :=
  let (i, base, bits) := entryFor lengthTable length
  ⟨257 + i, length - base, bits⟩

def codedDistance (distance : Nat) : Coded :=
  let (i, base, bits) := entryFor distanceTable distance
  ⟨i, distance - base, bits⟩

/-- The canonical code of each symbol: its bits as a number, the first one highest. -/
def canonicalCodes (lengths : List Nat) : Array Nat :=
  let counts := (Code.ofLengths lengths).counts
  let firsts := ((List.range maxCodeLength).foldl (fun (acc : List Nat × Nat) n =>
    let next := 2 * (acc.2 + counts.getD n 0)
    (next :: acc.1, next)) ([0], 0)).1.reverse.toArray
  ((lengths.foldl (fun (acc : Array Nat × Array Nat) n =>
    let code := acc.2.getD n 0
    (acc.1.push code, acc.2.setIfInBounds n (code + 1))) (#[], firsts)).1)

/-! ### Bits -/

/-- Bytes written so far and the bits of the unfinished one. -/
structure Bits where
  bytes : ByteArray
  part : Nat
  count : Nat

namespace Bits

def empty : Bits := ⟨ByteArray.empty, 0, 0⟩

def flush : Nat → Bits → Bits
  | 0, b => b
  | fuel + 1, b =>
    if b.count < 8 then b
    else flush fuel ⟨b.bytes.push (UInt8.ofNat (b.part % 256)), b.part / 256, b.count - 8⟩

/-- Appends the low `n` bits of a number, the lowest first. -/
def put (b : Bits) (value n : Nat) : Bits :=
  flush 4 ⟨b.bytes, b.part + value * Nat.pow 2 b.count, b.count + n⟩

def reversed : Nat → Nat → Nat
  | 0, _ => 0
  | n + 1, value => (value % 2) * Nat.pow 2 n + reversed n (value / 2)

/-- Appends a code, its highest bit first. -/
def putCode (b : Bits) (code length : Nat) : Bits :=
  b.put (reversed length code) length

/-- Fills the unfinished byte with zeros. -/
def align (b : Bits) : Bits :=
  if b.count = 0 then b else b.put 0 (8 - b.count)

/-- The unfinished byte without those before it. -/
def unfinished (b : Bits) : Bits := { b with bytes := ByteArray.empty }

end Bits

structure Writer where
  lengths : Array Nat
  codes : Array Nat

def Writer.ofLengths (lengths : List Nat) : Writer :=
  ⟨lengths.toArray, canonicalCodes lengths⟩

def Writer.put (w : Writer) (b : Bits) (symbol : Nat) : Bits :=
  b.putCode (w.codes.getD symbol 0) (w.lengths.getD symbol 0)

def putToken (literals distances : Writer) (b : Bits) : Token → Bits
  | .literal x => literals.put b x.toNat
  | .repeated length distance =>
    let l := codedLength length
    let d := codedDistance distance
    let b := (literals.put b l.symbol).put l.extra l.extraBits
    (distances.put b d.symbol).put d.extra d.extraBits

def putTokens (literals distances : Writer) (b : Bits) (ts : Array Token) : Bits :=
  literals.put (ts.foldl (putToken literals distances) b) endOfBlock

/-! ### Blocks -/

def putFixed (b : Bits) (ts : Array Token) : Bits :=
  putTokens (Writer.ofLengths fixedLiteralLengths) (Writer.ofLengths fixedDistanceLengths)
    (b.put 1 2) ts

def bump (counts : Array Nat) (i : Nat) : Array Nat :=
  counts.setIfInBounds i (counts.getD i 0 + 1)

/-- How often each literal or length and each distance occurs. -/
def frequencies (ts : Array Token) : List Nat × List Nat :=
  let (l, d) := ts.foldl (fun (acc : Array Nat × Array Nat) t =>
    match t with
    | .literal x => (bump acc.1 x.toNat, acc.2)
    | .repeated length distance =>
      (bump acc.1 (codedLength length).symbol, bump acc.2 (codedDistance distance).symbol))
    (Array.replicate 286 0, Array.replicate 30 0)
  ((bump l endOfBlock).toList, d.toList)

/-- A run-length step in a list of code lengths. -/
structure RunStep where
  symbol : Nat
  extra : Nat
  extraBits : Nat

def zeroSteps (n : Nat) : List RunStep :=
  if n < 3 then List.replicate n ⟨0, 0, 0⟩
  else if n ≤ 10 then [⟨17, n - 3, 3⟩]
  else ⟨18, min 138 n - 11, 7⟩ :: zeroSteps (n - min 138 n)
termination_by n

/-- A run of `n` more entries like the one before. -/
def repeatSteps (x n : Nat) : List RunStep :=
  if n < 3 then List.replicate n ⟨x, 0, 0⟩
  else ⟨16, min 6 n - 3, 2⟩ :: repeatSteps x (n - min 6 n)
termination_by n

/-- A list of code lengths with its runs shortened. -/
def runSteps : Nat → List Nat → List RunStep
  | 0, _ => []
  | _ + 1, [] => []
  | fuel + 1, x :: rest =>
    let same := (rest.takeWhile (· = x)).length
    (if x = 0 then zeroSteps (same + 1) else ⟨x, 0, 0⟩ :: repeatSteps x same) ++
      runSteps fuel (rest.drop same)

/-- Drops zeros at the end, down to `least` entries. -/
def trimmed (least : Nat) (lengths : List Nat) : List Nat :=
  let kept := lengths.length - (lengths.reverse.takeWhile (· = 0)).length
  lengths.take (max least kept)

def putDynamic (b : Bits) (ts : Array Token) : Bits :=
  let (lf, df) := frequencies ts
  let literalLengths := trimmed 257 (codeLengths maxCodeLength lf)
  let distanceLengths := trimmed 1 (codeLengths maxCodeLength df)
  let steps := runSteps 512 (literalLengths ++ distanceLengths)
  let stepCounts := (steps.foldl (fun c s => bump c s.symbol) (Array.replicate 19 0)).toList
  let shortLengths := codeLengths 7 stepCounts
  let ordered := trimmed 4 (codeLengthOrder.map fun s => shortLengths.getD s 0)
  let shortWriter := Writer.ofLengths shortLengths
  let b := b.put 2 2
  let b := ((b.put (literalLengths.length - 257) 5).put (distanceLengths.length - 1) 5).put
    (ordered.length - 4) 4
  let b := ordered.foldl (fun b n => b.put n 3) b
  let b := steps.foldl (fun b s => (shortWriter.put b s.symbol).put s.extra s.extraBits) b
  putTokens (Writer.ofLengths literalLengths) (Writer.ofLengths distanceLengths) b ts

/-- The most bytes in a stored block. -/
def storedLimit : Nat := 65535

def putStored (b : Bits) (data : ByteArray) (start size : Nat) : Bits :=
  let b := (b.put 0 2).align
  let b := (b.put size 16).put (storedLimit - size) 16
  (data.extract start (start + size)).foldl (fun b x => b.put x.toNat 8) b

/-- Below this size codes made for the data cost more to write down than they save. -/
def dynamicLeast : Nat := 48

/-- Up to this size a block is never stored. -/
def storedLeast : Nat := 32

/-- Appends a block to the unfinished byte. It is stored if its whole bytes are not fewer than the
data takes, and the data is still in the window. -/
def putBlock (data : ByteArray) (last : Bool) (b : Bits) (block : Block) : Bits :=
  let b := b.put (if last then 1 else 0) 1
  let opened := b.unfinished
  let coded :=
    if block.size < dynamicLeast then putFixed opened block.tokens
    else putDynamic opened block.tokens
  let chosen :=
    if storedLeast < block.size ∧ block.size ≤ coded.bytes.size + 1 ∧ block.inWindow then
      putStored opened data block.start block.size
    else coded
  ⟨b.bytes ++ chosen.bytes, chosen.part, chosen.count⟩

/-- The stream for data, with a repeat wherever the search finds one. -/
def pack (data : ByteArray) : ByteArray :=
  let all := blocks data
  let (out, _) := all.foldl (fun (acc : Bits × Nat) block =>
    (putBlock data (acc.2 + 1 = all.size) acc.1 block, acc.2 + 1)) (Bits.empty, 0)
  out.align.bytes

def deflate (data : Bytes) : Bytes := (pack ⟨data.toArray⟩).data.toList

/-- Every stream that is made of some data inflates to the data. -/
def Restores (deflate : Bytes → Bytes) : Prop := ∀ data, Inflates (deflate data) data

end TokenSeal.Deflate
