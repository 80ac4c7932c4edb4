import TokenSeal.Json.Double
/-!
JSON values. An object keeps its members in the order of their first appearance, and setting a
member that is there keeps its place. `Json.render` is the compact text: no blanks, and escapes
only for the quote, the backslash and the control characters.
-/

namespace TokenSeal

inductive Json where
  | null
  | bool (b : Bool)
  | integer (n : Int)
  | double (x : Double)
  | string (s : String)
  | array (items : List Json)
  | object (members : List (String × Json))
deriving Inhabited, Repr

abbrev Members := List (String × Json)

namespace Members

def get? (ms : Members) (name : String) : Option Json :=
  (ms.find? (·.1 = name)).map (·.2)

def names (ms : Members) : List String := ms.map (·.1)

/-- Gives `name` a value: in its place if it has one, otherwise at the end. -/
def insert : Members → String → Json → Members
  | [], name, v => [(name, v)]
  | m :: rest, name, v => if m.1 = name then (name, v) :: rest else m :: insert rest name v

def erase (ms : Members) (name : String) : Members :=
  ms.filter (·.1 ≠ name)

end Members

namespace Json

def hexDigit (n : Nat) : Char :=
  if n < 10 then Char.ofNat (48 + n) else Char.ofNat (87 + n)

def escape (c : Char) : List Char :=
  if c = '"' then ['\\', '"']
  else if c = '\\' then ['\\', '\\']
  else if c = '\x08' then ['\\', 'b']
  else if c = '\t' then ['\\', 't']
  else if c = '\n' then ['\\', 'n']
  else if c = '\x0c' then ['\\', 'f']
  else if c = '\r' then ['\\', 'r']
  else if c.toNat < 32 then ['\\', 'u', '0', '0', hexDigit (c.toNat / 16), hexDigit (c.toNat % 16)]
  else [c]

def quoted (s : String) : List Char :=
  '"' :: s.toList.flatMap escape ++ ['"']

def integerChars : Int → List Char
  | .ofNat n => Nat.toDigits 10 n
  | .negSucc n => '-' :: Nat.toDigits 10 (n + 1)

mutual

def chars : Json → List Char
  | null => ['n', 'u', 'l', 'l']
  | bool true => ['t', 'r', 'u', 'e']
  | bool false => ['f', 'a', 'l', 's', 'e']
  | integer n => integerChars n
  | double x => x.chars
  | string s => quoted s
  | array [] => ['[', ']']
  | array (v :: rest) => '[' :: chars v ++ itemsChars rest
  | object [] => ['\x7b', '\x7d']
  | object ((name, v) :: rest) => '\x7b' :: quoted name ++ ':' :: chars v ++ membersChars rest

def itemsChars : List Json → List Char
  | [] => [']']
  | v :: rest => ',' :: chars v ++ itemsChars rest

def membersChars : List (String × Json) → List Char
  | [] => ['\x7d']
  | (name, v) :: rest => ',' :: quoted name ++ ':' :: chars v ++ membersChars rest

end

def render (v : Json) : String := String.ofList v.chars

def asString? : Json → Option String
  | string s => some s
  | _ => none

end Json

end TokenSeal
