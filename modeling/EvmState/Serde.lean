import EvmState.Primitives

/-!
# JSON as serde takes it

What `serde_json` makes of a text, and what the derived readers make of that: structs by
the names of their fields, or as arrays of them.
-/

namespace EvmState

/-- `serde_json::Value`, a float as its bits. -/
inductive JsonValue where
  | null
  | bool (b : Bool)
  | posInt (n : U64)
  | negInt (n : U64)
  | float (bits : BitVec 64)
  | string (s : String)
  | array (items : List JsonValue)
  | object (members : List (String × JsonValue))

/-- The members of an object, in the order of its text. -/
abbrev JsonMembers := List (String × JsonValue)

def JsonMembers.named (ms : JsonMembers) (name : String) : List JsonValue :=
  (ms.filter fun m => m.1 = name).map Prod.snd

def JsonMembers.others (ms : JsonMembers) (name : String) : JsonMembers :=
  ms.filter fun m => m.1 ≠ name

/-- A `String` field. -/
def JsonMembers.str (ms : JsonMembers) (name : String) : Option String :=
  match ms.named name with
  | [.string s] => some s
  | _ => none

/-- An `Option` field: a `null` is no value. -/
def JsonValue.nonNull : JsonValue → Option JsonValue
  | .null => none
  | v => some v

/-- An `Option<String>`. -/
def JsonValue.optString : JsonValue → Option (Option String)
  | .null => some none
  | .string s => some (some s)
  | _ => none

/-- A field that may be missing but not given twice. -/
def JsonMembers.field (ms : JsonMembers) (name : String) : Option (Option JsonValue) :=
  match ms.named name with
  | [] => some none
  | [v] => some (some v)
  | _ => none

/-- The fields of a struct, by name or in their order. -/
def JsonValue.fields (names : List String) : JsonValue → Option (List (Option JsonValue))
  | .object ms => names.mapM (JsonMembers.field ms)
  | .array items =>
      if items.length ≤ names.length then
        some ((List.range names.length).map fun i => items[i]?)
      else none
  | _ => none

/-- `#[serde(default)]`. -/
def readField {α : Type} (read : JsonValue → Option (Option α)) :
    Option JsonValue → Option (Option α)
  | none => some none
  | some v => read v

end EvmState
