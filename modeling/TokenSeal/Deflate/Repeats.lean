import TokenSeal.Deflate.Tables
/-!
Data as literals and repeats of earlier data, cut into blocks. A place is looked up among the
earlier places with the same hash, and a repeat found there is kept in hand for one more place, in
case that one has a longer repeat.
-/

namespace TokenSeal.Deflate

inductive Token where
  | literal (b : UInt8)
  | repeated (length distance : Nat)

/-- A stretch of data that occurred `distance` places before. -/
structure Repeat where
  length : Nat
  distance : Nat

/-! ### Places with the same hash -/

def hashBits : Nat := 15

def hashAt (data : ByteArray) (i : Nat) : Nat :=
  (((data.get! i).toNat <<< 10) ^^^ ((data.get! (i + 1)).toNat <<< 5) ^^^ (data.get! (i + 2)).toNat) %
    Nat.pow 2 hashBits

/-- Places are kept modulo this number; a zero is no place. -/
def placeModulus : Nat := 65536

/-- Links `n` more places to the last one before with the same hash. -/
def linkPlaces (data : ByteArray) : Nat → Nat → Array Nat → Array Nat → Array Nat
  | 0, _, _, links => links
  | n + 1, place, heads, links =>
    let h := hashAt data place
    linkPlaces data n (place + 1) (heads.setIfInBounds h (place % placeModulus))
      (links.push (heads.getD h 0))

/-- For each place the last one before it with the same hash. -/
def links (data : ByteArray) : Array Nat :=
  linkPlaces data (data.size + 1 - minMatch) 0 (Array.replicate (Nat.pow 2 hashBits) 0) #[]

/-! ### The search at one place -/

/-- How many bytes at `i` and `j` agree, up to `fuel`. -/
def agreement (data : ByteArray) (i j : Nat) : Nat → Nat → Nat
  | 0, n => n
  | fuel + 1, n =>
    if data.get! (i + n) = data.get! (j + n) then agreement data i j fuel (n + 1) else n

/-- Probes come in rounds of three. -/
def roundSize : Nat := 3

/-- Follows the links from `source` to the longest repeat at `place`, at most `limit` long and
`reach` back. A source that agrees in the two bytes where a longer repeat would end is compared,
which ends the round of probes it is found in. -/
def follow (data : ByteArray) (links : Array Nat) (place limit reach : Nat) :
    Nat → Nat → Repeat → Repeat
  | 0, _, best => best
  | probes + 1, source, best =>
    let link := links.getD source 0
    let distance := (place + placeModulus - link) % placeModulus
    if link = 0 ∨ distance = 0 ∨ reach < distance then best
    else
      let source := place - distance
      if data.get! (source + best.length) = data.get! (place + best.length) ∧
          data.get! (source + best.length - 1) = data.get! (place + best.length - 1) then
        let n := agreement data source place limit 0
        let best := if best.length < n then ⟨n, distance⟩ else best
        if n = limit then best
        else follow data links place limit reach (probes / roundSize * roundSize) source best
      else follow data links place limit reach probes source best
termination_by probes => probes
decreasing_by
  · have := Nat.div_mul_le_self probes roundSize
    omega
  · omega

def lookahead (data : ByteArray) (place : Nat) : Nat := min maxMatch (data.size - place)

/-- How many probes are made for a repeat longer than a given length. -/
def probesFor (length : Nat) : Nat := if 32 ≤ length then 33 else 129

/-- A repeat of the least length is not worth a distance like this. -/
def farDistance : Nat := 8192

/-- A repeat at a place that is longer than a given length. It may not be short and far, nor start
at the first place of a window. -/
def repeatAt? (data : ByteArray) (links : Array Nat) (place longerThan : Nat) : Option Repeat :=
  let limit := lookahead data place
  if limit ≤ longerThan then none
  else
    let reach := min place (windowSize - limit)
    let best := follow data links place limit reach (probesFor longerThan) place ⟨longerThan, 0⟩
    if best.distance = 0 ∨ (best.length = minMatch ∧ farDistance ≤ best.distance) ∨
        place % windowSize = best.distance then none
    else some best

/-! ### The choice of tokens -/

/-- A repeat in hand with the byte it starts with. -/
structure Held where
  first : UInt8
  found : Repeat

/-- A repeat this long is taken without a look at the next place. -/
def longRepeat : Nat := 128

/-- The tokens that are settled at a place, the repeat in hand after it, and how far to go on. -/
def settle (data : ByteArray) (links : Array Nat) (place : Nat) (held : Option Held) :
    List Token × Option Held × Nat :=
  let here := data.get! place
  let found := repeatAt? data links place ((held.map (·.found.length)).getD (minMatch - 1))
  match held, found with
  | none, none => ([.literal here], none, 1)
  | some h, none => ([.repeated h.found.length h.found.distance], none, h.found.length - 1)
  | _, some r =>
    let before := (held.map fun h => Token.literal h.first).toList
    if longRepeat ≤ r.length then (before ++ [.repeated r.length r.distance], none, r.length)
    else (before, some ⟨here, r⟩, 1)

/-! ### Blocks -/

structure Block where
  tokens : Array Token := #[]
  start : Nat := 0
  size : Nat := 0
  /-- The memory for the tokens and for a flag on each of them. -/
  bulk : Nat := 1
  /-- Whether the data is still in the window when the block is written. -/
  inWindow : Bool := true

namespace Block

def bulkLimit : Nat := 65528

/-- A block over more data than this is written once its tokens take more memory than the data. -/
def sizeLimit : Nat := 31744

def add (b : Block) (t : Token) : Block :=
  let (size, bulk) := match t with
    | .literal _ => (1, 1)
    | .repeated length _ => (length, 3)
  let tokens := b.tokens.push t
  { b with
    tokens := tokens, size := b.size + size
    bulk := b.bulk + bulk + (if tokens.size % 8 = 0 then 1 else 0) }

def isFull (b : Block) : Bool :=
  bulkLimit < b.bulk || (sizeLimit < b.size && b.size ≤ b.bulk * 115 / 128)

end Block

/-- The blocks from a place on. The last one may be empty. -/
def blocksFrom (data : ByteArray) (links : Array Nat) :
    Nat → Nat → Option Held → Block → Array Block → Array Block
  | 0, _, _, b, done => done.push b
  | fuel + 1, place, held, b, done =>
    if data.size ≤ place then done.push { b with inWindow := place - b.start ≤ windowSize }
    else
      let (tokens, held, advance) := settle data links place held
      let b := tokens.foldl Block.add b
      let next := place + advance
      if b.isFull then
        let unread := lookahead data place - advance
        let written := { b with inWindow := next - b.start ≤ windowSize - unread }
        blocksFrom data links fuel next held { start := b.start + b.size } (done.push written)
      else blocksFrom data links fuel next held b done

def blocks (data : ByteArray) : Array Block :=
  blocksFrom data (links data) (data.size + 1) 0 none {} #[]

end TokenSeal.Deflate
