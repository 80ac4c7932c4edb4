import TokenSeal.Bytes
import TokenSeal.Text.Hidden
/-!
Texts for a person who inspects a value: a string stands in quotes, with escapes for quotes,
backslashes and whatever would not show.
-/

namespace TokenSeal.Text

/-- How a character is written between the quotes. -/
def literalChar (c : Char) : List Char :=
  if c = '"' then ['\\', '"']
  else if c = '\\' then ['\\', '\\']
  else if c = '\x00' then ['\\', '0']
  else if c = '\t' then ['\\', 't']
  else if c = '\n' then ['\\', 'n']
  else if c = '\r' then ['\\', 'r']
  else if isHidden c then
    '\\' :: 'u' :: '\x7b' :: Nat.toDigits 16 c.toNat ++ ['\x7d']
  else [c]

def literal (s : String) : String :=
  String.ofList ('"' :: s.toList.flatMap literalChar ++ ['"'])

/-- A value that may be missing, by name. -/
def optional : Option String → String
  | none => "None"
  | some shown => "Some(" ++ shown ++ ")"

def bytes (b : Bytes) : String :=
  "[" ++ ", ".intercalate (b.map fun byte => toString byte.toNat) ++ "]"

/-- Named fields of a structure, in order; `more` marks that others are kept back. -/
def fields (name : String) (shown : List (String × String)) (more : Bool) : String :=
  let listed := shown.map fun f => f.1 ++ ": " ++ f.2
  let listed := if more then listed ++ [".."] else listed
  name ++ " \x7b " ++ ", ".intercalate listed ++ " \x7d"

end TokenSeal.Text
