import Spintax.Fault
import Spintax.Text.Quoted

/-!
# Faults of shape

Strict readers of typed records refuse a value by saying what they found and what they expected.
The causes are common to markers and tables read from JSON and to the layered settings.
-/

namespace Spintax

/-- What was found in the place of something else. -/
inductive Found where
  | null
  /-- The value of a setting that was given no value. -/
  | unit
  | boolean (value : Bool)
  | integer (value : Int)
  /-- An integer of the settings. -/
  | wideInteger (value : Int)
  | float (written : String)
  | text (value : String)
  | sequence
  | map
deriving DecidableEq, Repr

/-- The kind of an integer of the settings, by the bits that it takes. -/
def Found.widthOf (value : Int) : String :=
  if -(1 <<< 63) ≤ value && value < 1 <<< 63 then "64-bit integer"
  else if 0 ≤ value && value < 1 <<< 64 then "64-bit unsigned integer"
  else if -(1 <<< 127) ≤ value && value < 1 <<< 127 then "128-bit integer"
  else "128-bit unsigned integer"

/-- What was found, as messages describe it. -/
def Found.describe : Found → String
  | .null => "null"
  | .unit => "unit value"
  | .boolean value => "boolean `" ++ (if value then "true" else "false") ++ "`"
  | .integer value => "integer `" ++ toString value ++ "`"
  | .wideInteger value => Found.widthOf value ++ " `" ++ toString value ++ "`"
  | .float written => "floating point `" ++ written ++ "`"
  | .text value => "string " ++ Text.quoted value
  | .sequence => "sequence"
  | .map => "map"

/-- Why a value does not have the shape of a record. -/
inductive ShapeFault where
  | wrongType (found : Found) (expected : String)
  | wrongLength (length : Nat) (expected : String)
  | unknownField (name : String) (known : List String)
  | missingField (name : String)
  | refused (refusal : Refusal)
deriving DecidableEq, Repr

/-- The whole message. -/
def ShapeFault.message : ShapeFault → String
  | .wrongType found expected => "invalid type: " ++ found.describe ++ ", expected " ++ expected
  | .wrongLength length expected =>
    "invalid length " ++ toString length ++ ", expected " ++ expected
  | .unknownField name known =>
    "unknown field `" ++ name ++ "`, expected one of " ++ Refusal.quoteKeys known
  | .missingField name => "missing field `" ++ name ++ "`"
  | .refused refusal => refusal.message

end Spintax
