import TokenSeal.Json.Form
/-!
Reading a structure with known member names. It is given as an object, whose unknown members are
skipped and whose known members appear at most once, or as an array of the members in order.
-/

namespace TokenSeal

/-- What was given for one member. -/
inductive Slot where
  | given (v : Json)
  | absent
  /-- An array that ends before the member. -/
  | ended

namespace Slot

def required {α : Type} (read : Json → Option α) : Slot → Option α
  | given v => read v
  | absent => none
  | ended => none

/-- A member that may be left out of an object, or null. -/
def optional {α : Type} (read : Json → Option α) : Slot → Option (Option α)
  | given .null => some none
  | given v => (read v).map some
  | absent => some none
  | ended => none

/-- A member that may be left out of an object or an array. -/
def withDefault {α : Type} (default : α) (read : Json → Option α) : Slot → Option α
  | given v => read v
  | absent => some default
  | ended => some default

end Slot

/-- A structure before its members are told apart. A value is `none` when it is malformed. -/
inductive Fields where
  | named (members : List (String × Option Json))
  | positional (items : List (Option Json))

namespace Fields

def ofForm? : Form → Option Fields
  | .object members =>
    (members.mapM fun (m : Option String × Form) => m.1.map fun name => (name, m.2.value?)).map named
  | .array items => some (positional (items.map Form.value?))
  | _ => none

def ofJson? : Json → Option Fields
  | .object members => some (named (members.map fun m => (m.1, some m.2)))
  | .array items => some (positional (items.map some))
  | _ => none

/-- Texts are read without a limit on nesting: skipped members may nest freely. -/
def ofText? (text : String) : Option Fields :=
  (Form.read? (text.length + 2) text).bind ofForm?

def pick? (members : List (String × Option Json)) (name : String) : Option Slot :=
  match members.filter (·.1 = name) with
  | [] => some .absent
  | [m] => m.2.map .given
  | _ => none

/-- What is given for each name; fails on a repeated or malformed member and on an array that is
too long. -/
def slots? (fields : Fields) (names : List String) : Option (List Slot) :=
  match fields with
  | named members => names.mapM (pick? members)
  | positional items =>
    if names.length < items.length then none
    else do
      let given ← items.mapM fun v => v.map Slot.given
      return given ++ List.replicate (names.length - items.length) .ended

end Fields

namespace Json

def asBool? : Json → Option Bool
  | bool b => some b
  | _ => none

def asNat? (bound : Nat) : Json → Option Nat
  | integer (.ofNat n) => if n < bound then some n else none
  | _ => none

def asStrings? : Json → Option (List String)
  | array items => items.mapM asString?
  | _ => none

end Json

end TokenSeal
