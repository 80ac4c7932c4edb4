import TokenSeal.Bytes
import TokenSeal.Json.Form
/-!
Bytes as pairs of hexadecimal digits, written in lower case.
-/

namespace TokenSeal.Hex

def encode (bytes : Bytes) : String :=
  String.ofList (bytes.flatMap fun b => [Json.hexDigit (b.toNat / 16), Json.hexDigit (b.toNat % 16)])

def decodeOnto : Bytes → List Char → Option Bytes
  | done, [] => some done.reverse
  | _, [_] => none
  | done, a :: b :: rest =>
    match Form.hex? a, Form.hex? b with
    | some x, some y => decodeOnto (UInt8.ofNat (x * 16 + y) :: done) rest
    | _, _ => none

/-- Reads pairs of digits of either case. -/
def decode? (s : String) : Option Bytes := decodeOnto [] s.toList

end TokenSeal.Hex
