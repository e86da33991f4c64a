import Spintax.Json.Basic
import Spintax.Text.Reading

/-!
# The core schema of YAML

What a plain scalar stands for: nothing, a truth value, an integer, a floating-point number, or else
its text. Integers may be written in bases 2, 8, 10 and 16; a number with superfluous leading zeros
is a text. Integers beyond 64 bits are refused, and beyond 128 bits they are floating-point numbers.
-/

namespace Spintax.Yaml

/-- The characters behind a sign, and whether the sign is a minus. -/
def unsigned (cs : List Char) : Bool × List Char :=
  match cs with
  | '+' :: rest => (false, rest)
  | '-' :: rest => (true, rest)
  | _ => (false, cs)

/-- The number that at least one digit of a base writes. -/
def digitsValue? (base : Nat) (digits : List Char) : Option Nat :=
  if digits.isEmpty then none else Text.numberOf? base digits

/-- Whether a scalar has several digits, of which the first is zero. -/
def isZeroPadded (cs : List Char) : Bool :=
  match (unsigned cs).2 with
  | '0' :: c :: rest => (c :: rest).all Char.isDigit
  | _ => false

/-- The integer that a scalar writes. -/
def integer? (cs : List Char) : Option Int :=
  let (negative, digits) := unsigned cs
  let value := match digits with
    | '0' :: 'x' :: rest => digitsValue? 16 rest
    | '0' :: 'o' :: rest => digitsValue? 8 rest
    | '0' :: 'b' :: rest => digitsValue? 2 rest
    | _ => if isZeroPadded cs then none else digitsValue? 10 digits
  value.map fun value => if negative then -(value : Int) else value

/-- The finite number that a decimal fraction with an optional exponent writes. -/
def decimal? (negative : Bool) (cs : List Char) : Option Binary64 := do
  let isLetter (c : Char) : Bool := c == 'e' || c == 'E'
  let mantissa := cs.takeWhile fun c => !isLetter c
  let whole := mantissa.takeWhile (· != '.')
  let fraction := (mantissa.dropWhile (· != '.')).drop 1
  let digits ← digitsValue? 10 (whole ++ fraction)
  let exponent ← match cs.dropWhile fun c => !isLetter c with
    | [] => some 0
    | _ :: power =>
      let (below, power) := unsigned power
      (digitsValue? 10 power).map fun power => if below then -(power : Int) else power
  match Binary64.ofDecimal negative digits (exponent - fraction.length) with
  | .finite negative significand exponent => some (.finite negative significand exponent)
  | _ => none

/-- The floating-point number that a scalar writes. -/
def float? (cs : List Char) : Option Binary64 :=
  let (negative, digits) := unsigned cs
  let text := String.ofList digits
  if [".inf", ".Inf", ".INF"].contains text then some (.infinite negative)
  else if [".nan", ".NaN", ".NAN"].contains (String.ofList cs) then some .nan
  else decimal? negative digits

/-- The truth value that a scalar writes. -/
def truth? (text : String) : Option Bool :=
  if ["true", "True", "TRUE"].contains text then some true
  else if ["false", "False", "FALSE"].contains text then some false
  else none

/-- Whether a scalar writes nothing. -/
def isNull (text : String) : Bool :=
  ["null", "Null", "NULL", "~"].contains text

/-- An integer as a value, if it fits 64 bits. -/
def integerValue? (value : Int) : Option Json :=
  if -(1 <<< 63) ≤ value && value < 1 <<< 64 then some (.integer value) else none

/-- Whether an integer fits 128 bits. -/
def isWide (value : Int) : Bool :=
  -(1 <<< 127) ≤ value && value < 1 <<< 128

/-- A floating-point number as a value; what is not finite is nothing. -/
def floatValue : Binary64 → Json
  | .finite negative significand exponent => .float (.finite negative significand exponent)
  | _ => .null

/-- The value of a plain scalar; `none` if it is refused. -/
def plainValue? (text : String) : Option Json :=
  let cs := text.toList
  if text.isEmpty || isNull text then
    some .null
  else
    match truth? text with
    | some value => some (.bool value)
    | none =>
      match (integer? cs).filter isWide with
      | some value => integerValue? value
      | none =>
        match (if isZeroPadded cs then none else float? cs) with
        | some value => some (floatValue value)
        | none => some (.string text)

/-- The value of a scalar whose tag is one of the core schema; others are texts. -/
def taggedValue? (tag text : String) : Option Json :=
  if tag == "tag:yaml.org,2002:bool" then (truth? text).map .bool
  else if tag == "tag:yaml.org,2002:int" then
    ((integer? text.toList).filter isWide).bind integerValue?
  else if tag == "tag:yaml.org,2002:float" then (float? text.toList).map floatValue
  else if tag == "tag:yaml.org,2002:null" then if isNull text then some .null else none
  else some (.string text)

end Spintax.Yaml
