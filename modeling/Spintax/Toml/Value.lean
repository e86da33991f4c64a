import Spintax.Toml.Date
import Spintax.Toml.Table
import Spintax.Toml.Text

/-!
# Values of TOML

Strings, truth values, integers, floating-point numbers, dates, arrays and inline tables. A date is
read as its normal text. Integers have 64 bits with a sign; a positive number too great for a
floating-point number is refused, a negative one is minus infinity. Arrays and inline tables nest at
most 79 deep.
-/

namespace Spintax.Toml

open Text (Reading)

/-- The digits without the underscores between them; each underscore has a digit on both sides, and
there is at least one digit. -/
def plainDigits? (isDigit : Char → Bool) : List Char → Option (List Char)
  | [] => none
  | [c] => if isDigit c then some [c] else none
  | c :: '_' :: rest => if isDigit c then (plainDigits? isDigit rest).map (c :: ·) else none
  | c :: rest => if isDigit c then (plainDigits? isDigit rest).map (c :: ·) else none

/-- The digits of a number that does not begin with a superfluous zero. -/
def wholeDigits? (cs : List Char) : Option (List Char) :=
  if cs.head? == some '0' && cs.length != 1 then none else plainDigits? Char.isDigit cs

/-- Whether there is a minus, and the characters behind the sign. -/
def splitSign (cs : List Char) : Bool × List Char :=
  match cs with
  | '+' :: rest => (false, rest)
  | '-' :: rest => (true, rest)
  | _ => (false, cs)

/-- An integer, if it fits 64 bits with a sign. -/
def bounded? (value : Int) : Option Setting :=
  if -(1 <<< 63) ≤ value && value < 1 <<< 63 then some (.integer value) else none

/-- An integer that is written in the digits of a base. -/
def basedInteger? (base : Nat) (cs : List Char) : Option Setting := do
  let digits ← plainDigits? (fun c => (Text.numberOf? base [c]).isSome) cs
  bounded? (← Text.numberOf? base digits)

/-- The integer that characters write. -/
def integer? : List Char → Option Setting
  | '0' :: 'x' :: cs => basedInteger? 16 cs
  | '0' :: 'o' :: cs => basedInteger? 8 cs
  | '0' :: 'b' :: cs => basedInteger? 2 cs
  | cs => do
    let (negative, unsigned) := splitSign cs
    let value : Int := Text.decimalOf (← wholeDigits? unsigned)
    bounded? (if negative then -value else value)

/-- The floating-point number that characters write. -/
def float? (cs : List Char) : Option Binary64 := do
  let (negative, unsigned) := splitSign cs
  if unsigned == ['i', 'n', 'f'] then
    return .infinite negative
  else if unsigned == ['n', 'a', 'n'] then
    return .nan
  else
    let isLetter (c : Char) : Bool := c == 'e' || c == 'E'
    let mantissa := unsigned.takeWhile fun c => !isLetter c
    let whole ← wholeDigits? (mantissa.takeWhile (· != '.'))
    let fraction ← match mantissa.dropWhile (· != '.') with
      | [] => some []
      | _ :: digits => plainDigits? Char.isDigit digits
    let exponent : Int ← match unsigned.dropWhile fun c => !isLetter c with
      | [] => some 0
      | _ :: power =>
        let (below, digits) := splitSign power
        (plainDigits? Char.isDigit digits).map fun digits =>
          if below then -Text.decimalOf digits else Text.decimalOf digits
    match Binary64.ofDecimal negative (Text.decimalOf (whole ++ fraction))
        (exponent - fraction.length) with
    | .infinite false => none
    | value => return value

/-- The value that a word or a number writes. -/
def atom? (cs : List Char) : Option Setting :=
  if cs == ['t', 'r', 'u', 'e'] then some (.boolean true)
  else if cs == ['f', 'a', 'l', 's', 'e'] then some (.boolean false)
  else
    match dateText? cs with
    | some text => some (.text (String.ofList text))
    | none =>
      match integer? cs with
      | some value => some value
      | none =>
        if cs.any fun c => c == '.' || c == 'e' || c == 'E' || c == 'n' then (float? cs).map .float
        else none

/-- Whether a character may stand in a word, a number or a date. -/
def isAtomChar (c : Char) : Bool :=
  c.isAlphanum || c == '+' || c == '-' || c == '.' || c == ':' || c == '_'

/-- How many characters at the front write a word, a number or a date. A blank may stand between a
date and a time. -/
def atomLength (cs : List Char) : Nat :=
  let run := (cs.takeWhile isAtomChar).length
  match cs.drop run with
  | ' ' :: rest =>
    let longer := run + 1 + (rest.takeWhile isAtomChar).length
    if (day? (cs.take run)).isSome && (timeOfDay? (rest.takeWhile isAtomChar)).isSome then longer
    else run
  | _ => run

/-- Read a word, a number or a date. -/
def readAtom? : (cs : List Char) → Option (Reading Setting cs)
  | [] => none
  | c :: cs =>
    let length := atomLength (c :: cs)
    if length = 0 then none
    else (atom? ((c :: cs).take length)).map fun value =>
      ⟨value, cs.drop (length - 1), by simp only [List.length_drop, List.length_cons]; omega⟩

/-- The text behind a character that lines are skipped to is shorter. -/
theorem length_lt_of_skipLines {c : Char} {rest cs : List Char} (start : skipLines cs = c :: rest) :
    rest.length < cs.length := by
  have before := length_skipLines_le cs
  rw [start, List.length_cons] at before
  omega

/-- The text behind an item and the character after it is shorter. -/
theorem length_lt_behind_item {c : Char} {more rest cs : List Char}
    (shorter : rest.length < (skipLines cs).length) (after : skipLines rest = c :: more) :
    more.length < cs.length :=
  Nat.lt_of_lt_of_le (Nat.lt_trans (length_lt_of_skipLines after) shorter) (length_skipLines_le cs)

/-- Read the items of an array up to its closing bracket. Line ends and comments may stand around
them, and a comma behind the last one. -/
def items? (value? : (cs : List Char) → Option (Reading Setting cs)) (read : List Setting)
    (cs : List Char) : Option (Reading (List Setting) cs) :=
  match start : skipLines cs with
  | ']' :: rest => some ⟨read.reverse, rest, length_lt_of_skipLines start⟩
  | _ =>
    match value? (skipLines cs) with
    | none => none
    | some ⟨item, rest, shorter⟩ =>
      match after : skipLines rest with
      | ',' :: more =>
        have fewer : more.length < cs.length := length_lt_behind_item shorter after
        (items? value? (item :: read) more).map fun reading => reading.widen (Nat.le_of_lt fewer)
      | ']' :: more => some ⟨(item :: read).reverse, more, length_lt_behind_item shorter after⟩
      | _ => none
termination_by cs.length

/-- Read a key, an equals sign and a value. -/
def assignment? (value? : (cs : List Char) → Option (Reading Setting cs)) (cs : List Char) :
    Option (Reading (List String × Setting) cs) :=
  match key? [] cs with
  | some ⟨key, '=' :: behindKey, shorterKey⟩ =>
    match value? (skipBlanks behindKey) with
    | some ⟨value, rest, shorter⟩ => some ⟨(key, value), rest, by
        have behind := length_skipBlanks_le behindKey
        simp only [List.length_cons] at shorterKey
        omega⟩
    | none => none
  | _ => none

/-- Give the last part of a key a value, under the other parts. -/
def assignKey (key : List String) (value : Setting) (entries : Entries Item) :
    Option (Entries Item) := do
  assign key.dropLast (← key.getLast?) value entries

/-- Read the entries of an inline table, from the first one up to its closing brace, on one line. -/
def entries? (value? : (cs : List Char) → Option (Reading Setting cs)) (read : Entries Item)
    (cs : List Char) : Option (Reading (Entries Item) cs) :=
  match assignment? value? cs with
  | none => none
  | some ⟨(key, value), rest, shorter⟩ =>
    match assignKey key value read with
    | none => none
    | some read =>
      match after : skipBlanks rest with
      | ',' :: more =>
        have fewer : more.length < cs.length := by
          have behind := length_skipBlanks_le rest
          rw [after, List.length_cons] at behind
          omega
        (entries? value? read more).map fun reading => reading.widen (Nat.le_of_lt fewer)
      | '\x7d' :: more => some ⟨read, more, by
          have behind := length_skipBlanks_le rest
          rw [after, List.length_cons] at behind
          omega⟩
      | _ => none
termination_by cs.length

/-- Read a value that holds no others. -/
def scalar? (cs : List Char) : Option (Reading Setting cs) :=
  match string? cs with
  | some reading => some (reading.map .text)
  | none => readAtom? cs

/-- Read a value whose arrays and inline tables nest at most `depth` deep. -/
def value? : (depth : Nat) → (cs : List Char) → Option (Reading Setting cs)
  | 0, cs => scalar? cs
  | depth + 1, cs =>
    match cs with
    | '[' :: inner =>
      (items? (value? depth) [] inner).map fun reading => (reading.map .list).widen (by simp)
    | '\x7b' :: inner =>
      match start : skipBlanks inner with
      | '\x7d' :: rest => some ⟨.table [], rest, by
          have before := length_skipBlanks_le inner
          rw [start, List.length_cons] at before
          rw [List.length_cons]; omega⟩
      | _ => (entries? (value? depth) [] inner).map fun reading =>
        (reading.map fun entries => .table (Item.finishEntries entries)).widen (by simp)
    | cs => scalar? cs

/-- How deep arrays and inline tables may nest. -/
def depthLimit : Nat := 79

end Spintax.Toml
