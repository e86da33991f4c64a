import Spintax.Number.Binary64

/-!
# JSON values

The values that loosely typed input is read into. An object keeps its members in the order in which
their names first appeared, because the order decides which of several faults is reported and in
which order placeholders are substituted.
-/

namespace Spintax

/-- A JSON value. Numbers that fit 64 bits, signed or unsigned, are integers; all others are
doubles. -/
inductive Json where
  | null
  | bool (value : Bool)
  | integer (value : Int)
  | float (value : Binary64)
  | string (value : String)
  | array (items : List Json)
  | object (members : List (String × Json))
deriving BEq, Repr, Inhabited

namespace Json

/-- The six kinds of value. -/
inductive Kind where
  | null | boolean | number | string | array | object
deriving DecidableEq, Repr

/-- The kind as messages name it, with its article. -/
def Kind.name : Kind → String
  | .null => "null"
  | .boolean => "a boolean"
  | .number => "a number"
  | .string => "a string"
  | .array => "an array"
  | .object => "an object"

/-- The kind of a value. -/
def kind : Json → Kind
  | .null => .null
  | .bool _ => .boolean
  | .integer _ => .number
  | .float _ => .number
  | .string _ => .string
  | .array _ => .array
  | .object _ => .object

/-- Whether every object inside, at any depth, has distinct member names. -/
inductive Distinct : Json → Prop where
  | null : Distinct .null
  | bool (value : Bool) : Distinct (.bool value)
  | integer (value : Int) : Distinct (.integer value)
  | float (value : Binary64) : Distinct (.float value)
  | string (value : String) : Distinct (.string value)
  | array {items : List Json} : (∀ item ∈ items, Distinct item) → Distinct (.array items)
  | object {members : List (String × Json)} :
      (members.map Prod.fst).Nodup → (∀ entry ∈ members, Distinct entry.2) →
      Distinct (.object members)

end Json

end Spintax
