import TokenSeal.Json.Value
import TokenSeal.Text.Literal
/-!
JSON values with their kinds spelled out, for a person who inspects them.
-/

namespace TokenSeal.Json

mutual

def inspect : Json → String
  | null => "Null"
  | bool true => "Bool(true)"
  | bool false => "Bool(false)"
  | integer n => "Number(" ++ String.ofList (integerChars n) ++ ")"
  | double x => "Number(" ++ String.ofList x.chars ++ ")"
  | string s => "String(" ++ Text.literal s ++ ")"
  | array items => "Array [" ++ ", ".intercalate (inspectItems items) ++ "]"
  | object members => "Object \x7b" ++ ", ".intercalate (inspectMembers members) ++ "\x7d"

def inspectItems : List Json → List String
  | [] => []
  | v :: rest => inspect v :: inspectItems rest

def inspectMembers : List (String × Json) → List String
  | [] => []
  | (name, v) :: rest => (Text.literal name ++ ": " ++ inspect v) :: inspectMembers rest

end

end TokenSeal.Json
