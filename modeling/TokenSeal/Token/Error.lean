import TokenSeal.Fault
/-!
What can go wrong with a token. That a token does not check says nothing of which key or which
step failed.
-/

namespace TokenSeal

/-- Tokens and headers that do not have the form they should have. -/
inductive Malformed where
  | tokenLength (most : Nat)
  | segmentCount (found : Nat)
  | headerNotObject
  | criticalList
  | criticalEntry
  | criticalRegistered (name : String)
  | criticalMissing (name : String)
  | criticalUnknown (name : String)
  | missing (name : String)
  | iterationCount
  | notText (name : String)
  | nestedText
  | nestedForm
  | payloadText
deriving DecidableEq, Repr

namespace Malformed

def message : Malformed → String
  | tokenLength most => s!"token exceeds {most} bytes"
  | segmentCount found => s!"expected 3 or 5 segments, found {found}"
  | headerNotObject => "header is not a JSON object"
  | criticalList => "crit must be a non-empty array"
  | criticalEntry => "crit entries must be strings"
  | criticalRegistered name => s!"crit may not list registered parameter {name}"
  | criticalMissing name => s!"critical parameter {name} is missing"
  | criticalUnknown name => s!"unsupported critical header parameter {name}"
  | missing name => s!"missing {name} header"
  | iterationCount => "missing or invalid p2c header"
  | notText name => s!"{name} must be a string"
  | nestedText => "nested token is not UTF-8"
  | nestedForm => "nested token is not a JWS"
  | payloadText => "payload is not UTF-8"

end Malformed

inductive TokenError where
  | malformed (cause : Malformed)
  | integrity
  | missingCredentials
  | unsecuredRejected
  | headerJson
  | fault (cause : Fault)
deriving DecidableEq, Repr

namespace TokenError

def kind : TokenError → FaultKind
  | malformed _ => .format
  | integrity => .integrity
  | missingCredentials => .other
  | unsecuredRejected => .other
  | headerJson => .format
  | fault cause => cause.kind

def message : TokenError → String
  | malformed cause => "Malformed token: " ++ cause.message
  | integrity => "Token integrity check failed"
  | missingCredentials => "No signing or encrypting credentials supplied"
  | unsecuredRejected => "Unsecured (alg=none) tokens are not accepted"
  | headerJson => "Header JSON error"
  | fault cause => cause.message

end TokenError

end TokenSeal
