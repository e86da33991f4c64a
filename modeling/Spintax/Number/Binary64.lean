/-!
# Binary64 numbers

The values of the 64-bit binary floating-point format, held exactly: a finite value is
`± significand * 2 ^ exponent`. A ratio of natural numbers is rounded to the nearest value, a tie
going to the even significand. A finite value is written in positional notation with the fewest
digits that round back to it.
-/

namespace Spintax

/-- A value of the format. A finite value has its significand below `2 ^ 53`; it is at least
`2 ^ 52` unless the exponent is the least one, `-1074`. -/
inductive Binary64 where
  | finite (negative : Bool) (significand : Nat) (exponent : Int)
  | infinite (negative : Bool)
  | nan
deriving DecidableEq, Repr

namespace Binary64

/-- The zero of the given sign. -/
def zero (negative : Bool) : Binary64 :=
  .finite negative 0 (-1074)

/-- The power `base ^ exponent` as a numerator and a denominator. -/
def power (base : Nat) (exponent : Int) : Nat × Nat :=
  if 0 ≤ exponent then (base.pow exponent.toNat, 1) else (1, base.pow (-exponent).toNat)

/-- The exponent of the greatest power of two that is at most `num / den`. -/
def binaryOrder (num den : Nat) : Int :=
  let guess : Int := (Nat.log2 num : Int) - (Nat.log2 den : Int)
  let (up, down) := power 2 guess
  if up * den ≤ num * down then guess else guess - 1

/-- The quotient rounded to the nearest natural number, a tie going to the even one. -/
def divNearest (num den : Nat) : Nat :=
  let quotient := num / den
  let twice := 2 * (num % den)
  if twice > den || (twice == den && quotient % 2 == 1) then quotient + 1 else quotient

/-- The value nearest to `± num / den`, or the infinity of that sign when it is beyond the greatest
finite value. -/
def ofRatio (negative : Bool) (num den : Nat) : Binary64 :=
  if num == 0 then
    zero negative
  else
    let exponent := max (-1074) (binaryOrder num den - 52)
    let (up, down) := power 2 exponent
    let rounded := divNearest (num * down) (den * up)
    let (significand, exponent) :=
      if rounded == 1 <<< 53 then (1 <<< 52, exponent + 1) else (rounded, exponent)
    if exponent > 971 then .infinite negative else .finite negative significand exponent

/-- The value nearest to `± digits * 10 ^ exponent`. Exponents far outside the range of the format
are settled by magnitude alone, so the cost does not grow with them. -/
def ofDecimal (negative : Bool) (digits : Nat) (exponent : Int) : Binary64 :=
  if digits == 0 then
    zero negative
  else
    let magnitude : Int := (Nat.toDigits 10 digits).length + exponent
    if magnitude > 400 then .infinite negative
    else if magnitude < -400 then zero negative
    else
      let (up, down) := power 10 exponent
      ofRatio negative (digits * up) down

/-- Whether the sign is set. -/
def isNegative : Binary64 → Bool
  | .finite negative _ _ => negative
  | .infinite negative => negative
  | .nan => false

/-- The absolute value as a numerator and a denominator; zero where there is none. -/
def magnitude : Binary64 → Nat × Nat
  | .finite _ significand exponent =>
    let (up, down) := power 2 exponent
    (significand * up, down)
  | _ => (0, 1)

/-- The product, rounded once, of a finite value and a positive ratio of finite values. -/
def scale (x factor divisor : Binary64) : Binary64 :=
  let (n, d) := x.magnitude
  let (fn, fd) := factor.magnitude
  let (dn, dd) := divisor.magnitude
  ofRatio x.isNegative (n * fn * dd) (d * fd * dn)

/-- The exponent of the greatest power of ten that is at most `num / den`, whose binary order is
`order`. -/
def decimalOrder (num den : Nat) (order : Int) : Int :=
  let reached (e : Int) : Bool :=
    let (up, down) := power 10 e
    up * den ≤ num * down
  let guess := Int.fdiv (order * 30103) 100000
  if reached (guess + 1) then guess + 1
  else if reached guess then guess
  else guess - 1

/-- The first of the decimal grids `10 ^ (order - n + 1)`, tried for `n` from `count` on, that has a
point rounding to `significand * 2 ^ exponent`: the nearest such point and its grid. -/
def shortestFrom (significand : Nat) (exponent order : Int) : Nat → Nat → Nat × Int
  | 0, count => (0, order - count + 1)
  | tries + 1, count =>
    let grid := order - count + 1
    let (gridUp, gridDown) := power 10 grid
    let (up, down) := power 2 (exponent - 2)
    let point (c : Nat) : Nat := c * gridUp * down
    let quarter (x : Nat) : Nat := x * up * gridDown
    let least := if significand == 1 <<< 52 && exponent > -1074 then 4 * significand - 1
      else 4 * significand - 2
    let greatest := 4 * significand + 2
    let value := quarter (4 * significand)
    let roundsBack (c : Nat) : Bool :=
      if significand % 2 == 0 then quarter least ≤ point c && point c ≤ quarter greatest
      else quarter least < point c && point c < quarter greatest
    let below := value / (gridUp * down)
    let above := below + 1
    match roundsBack below, roundsBack above with
    | true, true =>
      if value - point below < point above - value then (below, grid) else (above, grid)
    | true, false => (below, grid)
    | false, true => (above, grid)
    | false, false => shortestFrom significand exponent order tries (count + 1)

/-- The fewest decimal digits, and the power of ten they are multiplied by, that round to
`significand * 2 ^ exponent`. -/
def shortest (significand : Nat) (exponent : Int) : Nat × Int :=
  let (num, den) := (finite false significand exponent).magnitude
  shortestFrom significand exponent (decimalOrder num den (binaryOrder num den)) 17 1

/-- The positional text of `digits * 10 ^ grid`. -/
def positional (digits : Nat) (grid : Int) : String :=
  if 0 ≤ grid then
    toString (digits * Nat.pow 10 grid.toNat)
  else
    let places := (-grid).toNat
    let unit := Nat.pow 10 places
    let padded := toString (unit + digits % unit)
    toString (digits / unit) ++ "." ++ (padded.drop 1).toString

/-- The text of a value: positional, with the fewest digits that round back to it, and without a
point when it is whole. -/
def text : Binary64 → String
  | .nan => "NaN"
  | .infinite negative => if negative then "-inf" else "inf"
  | .finite negative significand exponent =>
    let sign := if negative then "-" else ""
    if significand == 0 then
      sign ++ "0"
    else
      let (digits, grid) := shortest significand exponent
      sign ++ positional digits grid

/-- The text of a value that always shows a decimal point when the value is finite. -/
def pointedText (x : Binary64) : String :=
  match x with
  | .finite .. =>
    let plain := x.text
    if plain.contains '.' then plain else plain ++ ".0"
  | _ => x.text

/-- The text of a value that always shows a decimal point or an exponent when the value is finite.
From `10 ^ 16` on and below `10 ^ -5` one digit stands before the point and an exponent behind. -/
def briefText (x : Binary64) : String :=
  match x with
  | .finite negative significand exponent =>
    let (digits, grid) := shortest significand exponent
    let written := toString digits
    let order := grid + written.length
    if significand == 0 || (-5 < order && order ≤ 16) then
      x.pointedText
    else
      let fraction := (written.drop 1).toString
      let point := if fraction.isEmpty then "" else "."
      let power := order - 1
      (if negative then "-" else "") ++ (written.take 1).toString ++ point ++ fraction ++ "e" ++
        (if power < 0 then "" else "+") ++ toString power
  | _ => x.text

/-- The nearest whole number, a half going away from zero; `none` for what is not finite. -/
def round? : Binary64 → Option Int
  | .finite negative significand exponent =>
    let (num, den) := (finite negative significand exponent).magnitude
    let rounded : Nat := (2 * num + den) / (2 * den)
    some (if negative then -(rounded : Int) else rounded)
  | _ => none

end Binary64

end Spintax
