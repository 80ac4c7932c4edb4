import TokenSeal.Hash.Digest
/-!
Deriving a key from an agreed secret: SHA-256 of a counter, the secret and a description of the
use, as often as it takes. The parts of the description are written with their lengths, so no two
uses have the same description.
-/

namespace TokenSeal.Agreement

def withLength (field : Bytes) : Bytes := Bytes.ofNat 4 field.length ++ field

/-- What the derived key is for: the algorithm, the two parties, and its length in bits. -/
def description (algorithm : String) (apu apv : Bytes) (bits : Nat) : Bytes :=
  withLength (Bytes.ofText algorithm) ++ withLength apu ++ withLength apv ++ Bytes.ofNat 4 bits

/-- What is hashed in a round; rounds are counted from one. -/
def roundInput (round : Nat) (secret : Bytes) (algorithm : String) (apu apv : Bytes) (bits : Nat) :
    Bytes :=
  Bytes.ofNat 4 round ++ secret ++ description algorithm apu apv bits

def rounds (bits : Nat) : Nat := ((bits + 7) / 8 + 31) / 32

def derive (secret : Bytes) (algorithm : String) (apu apv : Bytes) (bits : Nat) : Bytes :=
  ((List.range (rounds bits)).flatMap fun i =>
    HashId.sha256.digest (roundInput (i + 1) secret algorithm apu apv bits)).take ((bits + 7) / 8)

end TokenSeal.Agreement
