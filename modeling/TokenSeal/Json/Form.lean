import TokenSeal.Json.Value
/-!
The written form of a JSON text, before its numbers and strings are given values. `Form.read?`
accepts the grammar; `Form.value?` then refuses what has no value: a number out of range, half of
a surrogate pair on its own, and nesting deeper than the limit. A reader that skips a member it
does not know needs only its form.
-/

namespace TokenSeal

/-- A number as written: digits, the digits after a point, and the power of ten. -/
structure Numeral where
  negative : Bool
  whole : List Nat
  fraction : List Nat
  power : Option Int
deriving Inhabited, Repr

namespace Numeral

def u64Max : Nat := Nat.pow 2 64 - 1

/-- Takes digits in while the number stays below `2 ^ 64`; also counts the digits left over. -/
def absorb : Nat → List Nat → Nat × Nat
  | n, [] => (n, 0)
  | n, d :: rest => if u64Max < n * 10 + d then (n, rest.length + 1) else absorb (n * 10 + d) rest

/-- The value of a number. It is an integer if it is written as one and fits in 64 bits, and a
double otherwise; minus zero is a double. -/
def value? (t : Numeral) : Option Json :=
  let (n, dropped) := absorb 0 t.whole
  match t.fraction, t.power with
  | [], none =>
    if dropped ≠ 0 then (Double.ofDecimal? t.negative n dropped).map .double
    else if t.negative = false then some (.integer n)
    else if n ≠ 0 ∧ n ≤ Nat.pow 2 63 then some (.integer (-n))
    else (Double.ofDecimal? true n 0).map .double
  | fraction, power =>
    let (n, unread) := absorb n fraction
    let k : Int := dropped - ((fraction.length - unread : Nat) : Int) + power.getD 0
    (Double.ofDecimal? t.negative n k).map .double

end Numeral

/-- A JSON text as a tree. A string is `none` when it names half of a surrogate pair alone. -/
inductive Form where
  | null
  | bool (b : Bool)
  | number (t : Numeral)
  | string (s : Option String)
  | array (items : List Form)
  | object (members : List (Option String × Form))
deriving Inhabited

namespace Form

def isBlank (c : Char) : Bool := c = ' ' || c = '\t' || c = '\n' || c = '\r'

def skipBlanks (cs : List Char) : List Char := cs.dropWhile isBlank

def digit? (c : Char) : Option Nat :=
  if '0' ≤ c ∧ c ≤ '9' then some (c.toNat - 48) else none

def isDigit (c : Char) : Bool := (digit? c).isSome

def hex? (c : Char) : Option Nat :=
  if '0' ≤ c ∧ c ≤ '9' then some (c.toNat - 48)
  else if 'a' ≤ c ∧ c ≤ 'f' then some (c.toNat - 87)
  else if 'A' ≤ c ∧ c ≤ 'F' then some (c.toNat - 55)
  else none

def hex4? (a b c d : Char) : Option Nat := do
  return (((← hex? a) * 16 + (← hex? b)) * 16 + (← hex? c)) * 16 + (← hex? d)

def joinSurrogates (hi lo : Nat) : Char :=
  Char.ofNat (0x10000 + (hi - 0xD800) * 0x400 + (lo - 0xDC00))

def simpleEscape? (c : Char) : Option Char :=
  if c = '"' then some '"'
  else if c = '\\' then some '\\'
  else if c = '/' then some '/'
  else if c = 'b' then some '\x08'
  else if c = 'f' then some '\x0c'
  else if c = 'n' then some '\n'
  else if c = 'r' then some '\r'
  else if c = 't' then some '\t'
  else none

/-- Reads code units up to the closing quote; an escape may name half of a surrogate pair. -/
def stringUnits? : List Nat → List Char → Option (List Nat × List Char)
  | _, [] => none
  | done, '"' :: rest => some (done.reverse, rest)
  | done, '\\' :: 'u' :: a :: b :: c :: d :: rest =>
    match hex4? a b c d with
    | none => none
    | some n => stringUnits? (n :: done) rest
  | done, '\\' :: c :: rest =>
    match simpleEscape? c with
    | none => none
    | some e => stringUnits? (e.toNat :: done) rest
  | done, c :: rest =>
    if c.toNat < 32 ∨ c = '\\' then none else stringUnits? (c.toNat :: done) rest

def isHighSurrogate (n : Nat) : Bool := 0xD800 ≤ n && n ≤ 0xDBFF

def isLowSurrogate (n : Nat) : Bool := 0xDC00 ≤ n && n ≤ 0xDFFF

/-- Joins surrogates in pairs; fails on one without its partner. -/
def joinUnits? : Option Nat → List Char → List Nat → Option (List Char)
  | none, done, [] => some done.reverse
  | some _, _, [] => none
  | none, done, n :: rest =>
    if isHighSurrogate n then joinUnits? (some n) done rest
    else if isLowSurrogate n then none
    else joinUnits? none (Char.ofNat n :: done) rest
  | some hi, done, n :: rest =>
    if isLowSurrogate n then joinUnits? none (joinSurrogates hi n :: done) rest else none

def stringBody? (cs : List Char) : Option (Option String × List Char) :=
  match stringUnits? [] cs with
  | none => none
  | some (units, rest) => some ((joinUnits? none [] units).map String.ofList, rest)

def digits (cs : List Char) : List Nat := cs.filterMap digit?

/-- A power of ten beyond this leaves no doubt about the number, so its digits stop counting. -/
def powerLimit : Nat := Nat.pow 10 9

def powerOf (ds : List Nat) : Nat :=
  ds.foldl (fun n d => if powerLimit < n then n else n * 10 + d) 0

def power? (cs : List Char) : Option (Option Int × List Char) :=
  match cs with
  | c :: rest =>
    if c = 'e' ∨ c = 'E' then
      let (negative, rest) := match rest with
        | '+' :: r => (false, r)
        | '-' :: r => (true, r)
        | r => (false, r)
      let ds := digits (rest.takeWhile isDigit)
      if ds.isEmpty then none
      else
        let n : Int := powerOf ds
        some (some (if negative then -n else n), rest.dropWhile isDigit)
    else some (none, cs)
  | [] => some (none, [])

def fraction? (cs : List Char) : Option (List Nat × List Char) :=
  match cs with
  | '.' :: rest =>
    let ds := digits (rest.takeWhile isDigit)
    if ds.isEmpty then none else some (ds, rest.dropWhile isDigit)
  | _ => some ([], cs)

/-- Reads a number without its sign. A leading zero stands alone. -/
def numeral? (negative : Bool) (cs : List Char) : Option (Numeral × List Char) := do
  let whole := digits (cs.takeWhile isDigit)
  let rest := cs.dropWhile isDigit
  match whole with
  | [] => none
  | 0 :: _ :: _ => none
  | _ =>
    let (fraction, rest) ← fraction? rest
    let (power, rest) ← power? rest
    return (⟨negative, whole, fraction, power⟩, rest)

mutual

/-- Reads one value that may nest `depth` levels less one. -/
def value : Nat → Nat → List Char → Option (Form × List Char)
  | 0, _, _ => none
  | fuel + 1, depth, cs =>
    match skipBlanks cs with
    | 'n' :: 'u' :: 'l' :: 'l' :: rest => some (.null, rest)
    | 't' :: 'r' :: 'u' :: 'e' :: rest => some (.bool true, rest)
    | 'f' :: 'a' :: 'l' :: 's' :: 'e' :: rest => some (.bool false, rest)
    | '"' :: rest =>
      match stringBody? rest with
      | some (s, rest) => some (.string s, rest)
      | none => none
    | '-' :: rest =>
      match numeral? true rest with
      | some (t, rest) => some (.number t, rest)
      | none => none
    | '[' :: rest =>
      if depth ≤ 1 then none
      else
        match skipBlanks rest with
        | ']' :: rest => some (.array [], rest)
        | rest => items fuel (depth - 1) [] rest
    | '\x7b' :: rest =>
      if depth ≤ 1 then none
      else
        match skipBlanks rest with
        | '\x7d' :: rest => some (.object [], rest)
        | rest => members fuel (depth - 1) [] rest
    | cs =>
      match numeral? false cs with
      | some (t, rest) => some (.number t, rest)
      | none => none

def items : Nat → Nat → List Form → List Char → Option (Form × List Char)
  | 0, _, _, _ => none
  | fuel + 1, depth, done, cs =>
    match value fuel depth cs with
    | none => none
    | some (v, rest) =>
      match skipBlanks rest with
      | ',' :: rest => items fuel depth (v :: done) rest
      | ']' :: rest => some (.array (v :: done).reverse, rest)
      | _ => none

def members : Nat → Nat → List (Option String × Form) → List Char → Option (Form × List Char)
  | 0, _, _, _ => none
  | fuel + 1, depth, done, cs =>
    match skipBlanks cs with
    | '"' :: rest =>
      match stringBody? rest with
      | none => none
      | some (name, rest) =>
        match skipBlanks rest with
        | ':' :: rest =>
          match value fuel depth rest with
          | none => none
          | some (v, rest) =>
            match skipBlanks rest with
            | ',' :: rest => members fuel depth ((name, v) :: done) rest
            | '\x7d' :: rest => some (.object ((name, v) :: done).reverse, rest)
            | _ => none
        | _ => none
    | _ => none

end

/-- Reads a whole text as one value with blanks around it. -/
def read? (depth : Nat) (text : String) : Option Form :=
  let cs := text.toList
  match value (cs.length + 1) depth cs with
  | some (v, rest) => if skipBlanks rest = [] then some v else none
  | none => none

mutual

/-- The value of a form. The last of several members of one name counts, in the place of the
first. -/
def value? : Form → Option Json
  | .null => some .null
  | .bool b => some (.bool b)
  | .number t => t.value?
  | .string s => s.map .string
  | .array items => (values? [] items).map .array
  | .object members => (memberValues? [] members).map .object

def values? : List Json → List Form → Option (List Json)
  | done, [] => some done.reverse
  | done, v :: rest =>
    match value? v with
    | none => none
    | some x => values? (x :: done) rest

def memberValues? : Members → List (Option String × Form) → Option Members
  | done, [] => some done
  | _, (none, _) :: _ => none
  | done, (some name, v) :: rest =>
    match value? v with
    | none => none
    | some x => memberValues? (done.insert name x) rest

end

end Form

namespace Json

/-- One more than the number of levels a text may nest. -/
def depthLimit : Nat := 128

def parse? (text : String) : Option Json :=
  (Form.read? depthLimit text).bind Form.value?

end Json

end TokenSeal
