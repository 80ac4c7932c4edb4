import TokenSeal.Binding.Compressor
import TokenSeal.Binding.KeyWrapper
import TokenSeal.Json.Fields
import TokenSeal.Text.Literal
/-!
How tokens are made and read: limits, and what is let through.
-/

namespace TokenSeal

structure Options where
  maxTokenLength : Nat := 1024 * 1024
  maxDecompressedSize : Nat := Compressor.defaultLimit
  iterations : Nat := PasswordLimits.standard.iterations
  maxIterations : Nat := PasswordLimits.standard.maxIterations
  allowUnsecured : Bool := false
  unwrapNested : Bool := true
  defaultTyp : Option String := none
  criticalHeaders : List String := []
deriving DecidableEq, Repr

namespace Options

def passwordLimits (o : Options) : PasswordLimits := .make o.iterations o.maxIterations

def memberNames : List String :=
  ["max_token_length", "max_decompressed_size", "pbes2_iterations", "pbes2_max_iterations",
    "allow_unsecured", "unwrap_nested", "default_typ", "critical_headers"]

def toJson (o : Options) : Json :=
  .object (memberNames.zip
    [.integer o.maxTokenLength, .integer o.maxDecompressedSize, .integer o.iterations,
      .integer o.maxIterations, .bool o.allowUnsecured, .bool o.unwrapNested,
      (o.defaultTyp.map .string).getD .null, .array (o.criticalHeaders.map .string)])

def render (o : Options) : String := o.toJson.render

def textOrNull? : Json → Option (Option String)
  | .null => some none
  | .string s => some (some s)
  | _ => none

/-- Reads options; each of them may be left out. -/
def ofFields? (fields : Fields) : Option Options := do
  let standard : Options := {}
  match ← fields.slots? memberNames with
  | [tokenLength, decompressed, iterations, maxIterations, unsecured, nested, typ, critical] =>
    let size := Json.asNat? (Nat.pow 2 64)
    let count := Json.asNat? (Nat.pow 2 32)
    return {
      maxTokenLength := ← tokenLength.withDefault standard.maxTokenLength size
      maxDecompressedSize := ← decompressed.withDefault standard.maxDecompressedSize size
      iterations := ← iterations.withDefault standard.iterations count
      maxIterations := ← maxIterations.withDefault standard.maxIterations count
      allowUnsecured := ← unsecured.withDefault standard.allowUnsecured Json.asBool?
      unwrapNested := ← nested.withDefault standard.unwrapNested Json.asBool?
      defaultTyp := ← typ.withDefault standard.defaultTyp textOrNull?
      criticalHeaders := ← critical.withDefault standard.criticalHeaders Json.asStrings? }
  | _ => none

def ofText? (text : String) : Option Options := (Fields.ofText? text).bind ofFields?

def ofJson? (v : Json) : Option Options := (Fields.ofJson? v).bind ofFields?

/-- A text that shows all options. -/
def inspect (o : Options) : String :=
  Text.fields "SerializerOptions" (memberNames.zip
    [toString o.maxTokenLength, toString o.maxDecompressedSize, toString o.iterations,
      toString o.maxIterations, toString o.allowUnsecured, toString o.unwrapNested,
      Text.optional (o.defaultTyp.map Text.literal),
      "[" ++ ", ".intercalate (o.criticalHeaders.map Text.literal) ++ "]"]) false

end Options

end TokenSeal
