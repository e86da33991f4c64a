import Spintax.Json.Basic
import Spintax.Text.Reading

/-!
# Numbers in JSON text

A number without fraction and exponent that fits 64 bits, signed or unsigned, is an integer; every
other number is a double. The digits of a double are collected into a 64-bit significand as long as
they fit, digits beyond that only move the point, and the significand is then multiplied or divided
by a power of ten, with rounding at each step. A number too great for a double is refused; one too
small becomes zero. Minus zero is a double, because no integer keeps its sign.
-/

namespace Spintax.Json

open Text (Reading)

/-- The parts of a number: its sign, the digits before and after the point, and its exponent. -/
structure Numeral where
  negative : Bool
  whole : List Char
  fraction : List Char
  exponent : Int
  /-- Whether there is neither a fraction nor an exponent. -/
  plain : Bool
deriving Repr

namespace Numeral

/-- Append digits to a significand as long as it fits 64 bits: the significand and the number of
digits that were left out. -/
def absorb (significand : Nat) : List Char → Nat × Nat
  | [] => (significand, 0)
  | c :: digits =>
    let extended := significand * 10 + (c.toNat - 48)
    if extended < UInt64.size then absorb extended digits else (significand, digits.length + 1)

/-- Divide by `10 ^ count`, at most 308 powers at a time, until nothing is left of the value. -/
def shrink (value : Binary64) (count : Nat) : Binary64 :=
  if count ≤ 308 then
    value.scale (.ofDecimal false 1 0) (.ofDecimal false 1 count)
  else if value.magnitude.1 = 0 then
    value
  else
    shrink (value.scale (.ofDecimal false 1 0) (.ofDecimal false 1 308)) (count - 308)
termination_by count

/-- The double `± significand * 10 ^ exponent`, rounded at each step; `none` if it is too great. -/
def double? (negative : Bool) (significand : Nat) (exponent : Int) : Option Binary64 :=
  let value := Binary64.ofRatio negative significand 1
  if exponent < 0 then some (shrink value (-exponent).toNat)
  else if significand = 0 then some value
  else if exponent ≤ 308 then
    match value.scale (.ofDecimal false 1 exponent) (.ofDecimal false 1 0) with
    | .finite negative significand exponent => some (.finite negative significand exponent)
    | _ => none
  else none

/-- The value of a number; `none` if it is too great for a double. -/
def value? (numeral : Numeral) : Option Json :=
  let (significand, left) := absorb 0 numeral.whole
  let (full, leftFraction) := absorb significand numeral.fraction
  let used : Int := numeral.fraction.length - leftFraction
  let double := double? numeral.negative full (left - used + numeral.exponent)
  if numeral.plain && left == 0 then
    if !numeral.negative then some (.integer significand)
    else if 0 < significand && significand ≤ 1 <<< 63 then some (.integer (-significand))
    else double.map .float
  else
    double.map .float

end Numeral

/-- Whether there is at least one character and all are decimal digits. -/
def areDigits (cs : List Char) : Bool :=
  !cs.isEmpty && cs.all Char.isDigit

/-- The exponent that stands behind the letter of a number. -/
def exponent? : List Char → Option Int
  | '+' :: cs => if areDigits cs then some (Text.decimalOf cs) else none
  | '-' :: cs => if areDigits cs then some (-Text.decimalOf cs) else none
  | cs => if areDigits cs then some (Text.decimalOf cs) else none

/-- The digits of a fraction with its point; there may be no fraction at all. -/
def fraction? : List Char → Option (List Char)
  | [] => some []
  | _ :: cs => if areDigits cs then some cs else none

/-- The parts of a number without its sign. A number of several digits does not begin with zero. -/
def unsigned? (negative : Bool) (cs : List Char) : Option Numeral := do
  let isLetter (c : Char) : Bool := c == 'e' || c == 'E'
  let mantissa := cs.takeWhile fun c => !isLetter c
  let whole := mantissa.takeWhile (· != '.')
  let fraction ← fraction? (mantissa.dropWhile (· != '.'))
  if !areDigits whole || (whole.head? == some '0' && whole.length != 1) then
    none
  else
    match cs.dropWhile fun c => !isLetter c with
    | [] => some ⟨negative, whole, fraction, 0, fraction.isEmpty⟩
    | _ :: power => return ⟨negative, whole, fraction, ← exponent? power, false⟩

/-- The parts of a number. -/
def numeral? : List Char → Option Numeral
  | '-' :: cs => unsigned? true cs
  | cs => unsigned? false cs

/-- Whether a character can stand in a number. -/
def isNumberChar (c : Char) : Bool :=
  c.isDigit || c == '-' || c == '+' || c == '.' || c == 'e' || c == 'E'

/-- Read a number: the longest run of characters that can stand in one has to be one. -/
def number? (cs : List Char) : Option (Reading Json cs) :=
  if isEmpty : (cs.takeWhile isNumberChar).isEmpty then
    none
  else do
    let value ← (← numeral? (cs.takeWhile isNumberChar)).value?
    some ⟨value, cs.dropWhile isNumberChar, Text.length_dropWhile_lt isEmpty⟩

end Spintax.Json
