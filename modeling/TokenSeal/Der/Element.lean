import TokenSeal.Bytes
/-!
Tag, length and content, in the one spelling of each that the distinguished rules allow.
-/

namespace TokenSeal.Der

structure Element where
  tag : UInt8
  content : Bytes
deriving DecidableEq

def integerTag : UInt8 := 0x02

def bitStringTag : UInt8 := 0x03

def octetsTag : UInt8 := 0x04

def nullTag : UInt8 := 0x05

def objectTag : UInt8 := 0x06

def sequenceTag : UInt8 := 0x30

def maxLength : Nat := Nat.pow 2 28 - 1

def universalTags : List UInt8 :=
  [0x01, 0x02, 0x03, 0x04, 0x05, 0x06, 0x09, 0x0a, 0x0c, 0x12, 0x13, 0x14, 0x15, 0x16, 0x17, 0x18,
    0x1a, 0x1e, 0x30, 0x31]

/-- Tags of one byte; of the universal ones, those in use. -/
def isTag (t : UInt8) : Bool :=
  if t < 0x40 then universalTags.contains t else t &&& 0x1f ≠ 0x1f

/-- Whether a tag is the context-specific one of a number. -/
def isContext (t : UInt8) : Bool := t &&& 0xc0 = 0x80

def contextNumber (t : UInt8) : Nat := (t &&& 0x1f).toNat

/-- The context-specific tag of a constructed element. -/
def constructed (number : UInt8) : UInt8 := 0xa0 ||| number

/-- Reads a length in its shortest form. -/
def length? (bytes : Bytes) : Option (Nat × Bytes) :=
  match bytes with
  | [] => none
  | b :: rest =>
    if b < 0x80 then some (b.toNat, rest)
    else
      let size := b.toNat - 0x80
      let digits := rest.take size
      let n := Bytes.toNat digits
      if size = 0 ∨ 4 < size ∨ digits.length < size ∨ digits.head? = some 0 ∨ n < 0x80 ∨ maxLength < n
      then none
      else some (n, rest.drop size)

def element? (bytes : Bytes) : Option (Element × Bytes) :=
  match bytes with
  | [] => none
  | tag :: rest =>
    if isTag tag then
      match length? rest with
      | none => none
      | some (n, rest) =>
        if rest.length < n then none else some (⟨tag, rest.take n⟩, rest.drop n)
    else none

/-- Reads the content of an element with a given tag from the front. -/
def content? (tag : UInt8) (bytes : Bytes) : Option (Bytes × Bytes) :=
  match element? bytes with
  | some (e, rest) => if e.tag = tag then some (e.content, rest) else none
  | none => none

/-- The content of the only element, which has a given tag. -/
def only? (tag : UInt8) (bytes : Bytes) : Option Bytes :=
  match content? tag bytes with
  | some (content, []) => some content
  | _ => none

/-- A number that is not negative, without needless zeros in front. -/
def natural? (bytes : Bytes) : Option (Nat × Bytes) :=
  match content? integerTag bytes with
  | none => none
  | some (content, rest) =>
    match content with
    | [] => none
    | [b] => if b < 0x80 then some (b.toNat, rest) else none
    | b :: c :: more =>
      if 0x80 ≤ b ∨ (b = 0 ∧ c < 0x80) then none else some (Bytes.toNat (b :: c :: more), rest)

/-- The bytes of a bit string that uses all bits of its last byte. -/
def wholeBits? (content : Bytes) : Option Bytes :=
  match content with
  | 0 :: bytes => some bytes
  | _ => none

/-- Passes over context-specific elements below a number. -/
def skipContext : Nat → Nat → Bytes → Option Bytes
  | 0, _, _ => none
  | fuel + 1, number, bytes =>
    match bytes with
    | [] => some []
    | tag :: _ =>
      if isTag tag = false then none
      else if isContext tag ∧ contextNumber tag < number then
        match element? bytes with
        | none => none
        | some (_, rest) => skipContext fuel number rest
      else some bytes

/-- The content of the constructed context-specific element of a number, if it comes next; those
of smaller numbers are passed over. -/
def explicit? (number : UInt8) (bytes : Bytes) : Option (Option Bytes × Bytes) := do
  let bytes ← skipContext (bytes.length + 1) number.toNat bytes
  match bytes with
  | [] => return (none, [])
  | tag :: _ =>
    if isContext tag ∧ contextNumber tag = number.toNat then
      let (content, rest) ← content? (constructed number) bytes
      return (some content, rest)
    else return (none, bytes)

end TokenSeal.Der
