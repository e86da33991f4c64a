import Spintax.Entries
import Spintax.Json.Number

/-!
# Reading JSON text

The strict grammar of RFC 8259: nothing may precede the value but blanks, nothing may follow it but
blanks, strings hold no raw control characters and no lone surrogates, and values nest at most 127
deep. A repeated member name keeps its first position and takes its last value.
-/

namespace Spintax.Json

open Text (Reading)

/-- Whether a character may stand between the parts of a value. -/
def isBlank (c : Char) : Bool :=
  c == ' ' || c == '\n' || c == '\t' || c == '\r'

/-- The characters from the first that is not blank. -/
def skipBlanks (cs : List Char) : List Char :=
  cs.dropWhile isBlank

/-- Skipping blanks never makes a text longer. -/
theorem length_skipBlanks_le (cs : List Char) : (skipBlanks cs).length ≤ cs.length :=
  (List.dropWhile_suffix isBlank).length_le

/-- Read the four hexadecimal digits of a 16-bit unit. -/
def unit? : (cs : List Char) → Option (Reading Nat cs)
  | a :: b :: c :: d :: rest =>
    (Text.numberOf? 16 [a, b, c, d]).map fun unit =>
      ⟨unit, rest, by simp only [List.length_cons]; omega⟩
  | _ => none

/-- Read the second half of a character written as two units, of which the first is given. -/
def lowUnit? (high : Nat) : (cs : List Char) → Option (Reading Char cs)
  | '\\' :: 'u' :: cs => do
    let reading ← unit? cs
    if 0xDC00 ≤ reading.value && reading.value ≤ 0xDFFF then
      let joined := 0x10000 + (high - 0xD800) * 0x400 + (reading.value - 0xDC00)
      some ⟨Char.ofNat joined, reading.rest, by
        have := reading.shorter; simp only [List.length_cons]; omega⟩
    else
      none
  | _ => none

/-- Read what follows the backslash of an escape. -/
def escape? : (cs : List Char) → Option (Reading Char cs)
  | '"' :: cs => some (.single '"' '"' cs)
  | '\\' :: cs => some (.single '\\' '\\' cs)
  | '/' :: cs => some (.single '/' '/' cs)
  | 'b' :: cs => some (.single '\x08' 'b' cs)
  | 'f' :: cs => some (.single '\x0c' 'f' cs)
  | 'n' :: cs => some (.single '\n' 'n' cs)
  | 'r' :: cs => some (.single '\r' 'r' cs)
  | 't' :: cs => some (.single '\t' 't' cs)
  | 'u' :: cs => do
    let reading ← unit? cs
    if 0xD800 ≤ reading.value && reading.value ≤ 0xDFFF then
      if reading.value < 0xDC00 then
        let low ← lowUnit? reading.value reading.rest
        some (low.widen (by have := reading.shorter; simp only [List.length_cons]; omega))
      else
        none
    else
      some ⟨Char.ofNat reading.value, reading.rest, by
        have := reading.shorter; simp only [List.length_cons]; omega⟩
  | _ => none

/-- Read the characters of a string up to its closing quote; `read` holds those before, last one
first. -/
def stringChars? (read : List Char) : (cs : List Char) → Option (Reading String cs)
  | [] => none
  | '"' :: cs => some (.single (String.ofList read.reverse) '"' cs)
  | '\\' :: cs =>
    match escape? cs with
    | some ⟨c, rest, shorter⟩ =>
      (stringChars? (c :: read) rest).map fun reading =>
        reading.widen (by simp only [List.length_cons]; omega)
    | none => none
  | c :: cs =>
    if c.toNat < 0x20 then
      none
    else
      (stringChars? (c :: read) cs).map fun reading => reading.widen (by simp)
termination_by cs => cs.length

/-- Read a value that holds no other values. -/
def scalar? : (cs : List Char) → Option (Reading Json cs)
  | 'n' :: 'u' :: 'l' :: 'l' :: cs => some ⟨.null, cs, by simp only [List.length_cons]; omega⟩
  | 't' :: 'r' :: 'u' :: 'e' :: cs =>
    some ⟨.bool true, cs, by simp only [List.length_cons]; omega⟩
  | 'f' :: 'a' :: 'l' :: 's' :: 'e' :: cs =>
    some ⟨.bool false, cs, by simp only [List.length_cons]; omega⟩
  | '"' :: cs => (stringChars? [] cs).map fun reading =>
    (reading.map .string).widen (by simp)
  | cs => number? cs

/-- Read the items of an array from the first one to the closing bracket. -/
def items? (item? : (cs : List Char) → Option (Reading Json cs)) (read : List Json)
    (cs : List Char) : Option (Reading (List Json) cs) :=
  match item? (skipBlanks cs) with
  | none => none
  | some ⟨item, rest, shorter⟩ =>
    match after : skipBlanks rest with
    | ',' :: more =>
      have fewer : more.length < cs.length := by
        have blanks := length_skipBlanks_le cs
        have behind := length_skipBlanks_le rest
        rw [after, List.length_cons] at behind
        omega
      (items? item? (item :: read) more).map fun reading => reading.widen (Nat.le_of_lt fewer)
    | ']' :: more => some ⟨(item :: read).reverse, more, by
        have blanks := length_skipBlanks_le cs
        have behind := length_skipBlanks_le rest
        rw [after, List.length_cons] at behind
        omega⟩
    | _ => none
termination_by cs.length

/-- Read a member name with its colon. -/
def memberName? (cs : List Char) : Option (Reading String cs) :=
  match start : skipBlanks cs with
  | '"' :: inner =>
    match stringChars? [] inner with
    | some ⟨name, rest, shorter⟩ =>
      match after : skipBlanks rest with
      | ':' :: more => some ⟨name, more, by
          have blanks := length_skipBlanks_le cs
          have behind := length_skipBlanks_le rest
          rw [start, List.length_cons] at blanks
          rw [after, List.length_cons] at behind
          omega⟩
      | _ => none
    | none => none
  | _ => none

/-- Read the members of an object from the first one to the closing brace. -/
def members? (item? : (cs : List Char) → Option (Reading Json cs)) (read : Entries Json)
    (cs : List Char) : Option (Reading (Entries Json) cs) :=
  match memberName? cs with
  | none => none
  | some ⟨name, behindName, shorterName⟩ =>
    match item? (skipBlanks behindName) with
    | none => none
    | some ⟨item, rest, shorter⟩ =>
      match after : skipBlanks rest with
      | ',' :: more =>
        have fewer : more.length < cs.length := by
          have blanks := length_skipBlanks_le behindName
          have behind := length_skipBlanks_le rest
          rw [after, List.length_cons] at behind
          omega
        (members? item? (read.insert name item) more).map fun reading =>
          reading.widen (Nat.le_of_lt fewer)
      | '}' :: more => some ⟨read.insert name item, more, by
          have blanks := length_skipBlanks_le behindName
          have behind := length_skipBlanks_le rest
          rw [after, List.length_cons] at behind
          omega⟩
      | _ => none
termination_by cs.length

/-- Read a value whose arrays and objects nest at most `depth` deep. -/
def value? : (depth : Nat) → (cs : List Char) → Option (Reading Json cs)
  | 0, cs => scalar? cs
  | depth + 1, cs =>
    match cs with
    | '[' :: inner =>
      match start : skipBlanks inner with
      | ']' :: rest => some ⟨.array [], rest, by
          have blanks := length_skipBlanks_le inner
          rw [start, List.length_cons] at blanks
          rw [List.length_cons]; omega⟩
      | _ => (items? (value? depth) [] inner).map fun reading =>
        (reading.map .array).widen (by simp)
    | '{' :: inner =>
      match start : skipBlanks inner with
      | '}' :: rest => some ⟨.object [], rest, by
          have blanks := length_skipBlanks_le inner
          rw [start, List.length_cons] at blanks
          rw [List.length_cons]; omega⟩
      | _ => (members? (value? depth) [] inner).map fun reading =>
        (reading.map .object).widen (by simp)
    | cs => scalar? cs

/-- How deep arrays and objects may nest. -/
def depthLimit : Nat := 127

/-- The value that a text writes, if it is JSON. -/
def parse? (text : String) : Option Json :=
  match value? depthLimit (skipBlanks text.toList) with
  | some reading => if (skipBlanks reading.rest).isEmpty then some reading.value else none
  | none => none

end Spintax.Json
