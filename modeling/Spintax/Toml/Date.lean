import Spintax.Text.Reading

/-!
# Dates of TOML

A date, a time of day, or both, with or without an offset. A date has a normal text: a capital T
before the time, no zeros at the end of a fraction of a second, at most nine digits of it, and a
capital Z or a signed offset.
-/

namespace Spintax.Toml

/-- The number that two digits write, provided that it lies within the bounds. -/
def twoDigits? (least greatest : Nat) (a b : Char) : Option Nat :=
  if a.isDigit && b.isDigit then
    let number := Text.decimalOf [a, b]
    if least ≤ number && number ≤ greatest then some number else none
  else
    none

/-- Whether a year has a day more in February. -/
def isLeap (year : Nat) : Bool :=
  year % 4 == 0 && (year % 100 != 0 || year % 400 == 0)

/-- The number of days of a month. -/
def daysOf (year month : Nat) : Nat :=
  if month == 2 then if isLeap year then 29 else 28
  else if month == 4 || month == 6 || month == 9 || month == 11 then 30
  else 31

/-- Take a date from the front: its text and the rest. -/
def day? : List Char → Option (List Char × List Char)
  | a :: b :: c :: d :: '-' :: e :: f :: '-' :: g :: h :: rest =>
    if [a, b, c, d].all Char.isDigit then do
      let month ← twoDigits? 1 12 e f
      let _ ← twoDigits? 1 (daysOf (Text.decimalOf [a, b, c, d]) month) g h
      some ([a, b, c, d, '-', e, f, '-', g, h], rest)
    else
      none
  | _ => none

/-- Take the fraction of a second from the front, if there is one: its normal text and the rest. -/
def fraction? : List Char → Option (List Char × List Char)
  | '.' :: cs =>
    let digits := cs.takeWhile Char.isDigit
    let kept := ((digits.take 9).reverse.dropWhile (· == '0')).reverse
    if digits.isEmpty then none
    else some (if kept.isEmpty then [] else '.' :: kept, cs.dropWhile Char.isDigit)
  | cs => some ([], cs)

/-- Take a time of day from the front: its normal text and the rest. A minute may have a leap
second. -/
def time? : List Char → Option (List Char × List Char)
  | a :: b :: ':' :: c :: d :: ':' :: e :: f :: rest => do
    let _ ← twoDigits? 0 23 a b
    let _ ← twoDigits? 0 59 c d
    let _ ← twoDigits? 0 60 e f
    let (fraction, rest) ← fraction? rest
    some ([a, b, ':', c, d, ':', e, f] ++ fraction, rest)
  | _ => none

/-- The normal text of an offset; an offset of nothing is positive. -/
def offset? : List Char → Option (List Char)
  | [] => some []
  | ['Z'] => some ['Z']
  | ['z'] => some ['Z']
  | [sign, a, b, ':', c, d] =>
    if sign == '+' || sign == '-' then do
      let hours ← twoDigits? 0 23 a b
      let minutes ← twoDigits? 0 59 c d
      let shown := if hours == 0 && minutes == 0 then '+' else sign
      some [shown, a, b, ':', c, d]
    else
      none
  | _ => none

/-- The normal text of a time with an offset, which stands behind a date. -/
def timeOfDay? (cs : List Char) : Option (List Char) := do
  let (time, rest) ← time? cs
  return time ++ (← offset? rest)

/-- The normal text of a date with a time, of a date, or of a time. -/
def dateText? (cs : List Char) : Option (List Char) :=
  match day? cs with
  | some (day, []) => some day
  | some (day, delimiter :: rest) =>
    if delimiter == 'T' || delimiter == 't' || delimiter == ' ' then
      (timeOfDay? rest).map fun time => day ++ 'T' :: time
    else
      none
  | none =>
    match time? cs with
    | some (time, []) => some time
    | _ => none

end Spintax.Toml
