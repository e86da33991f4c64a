import Spintax.Text.Reading

/-!
# Blanks, strings and keys of TOML

The smallest parts of a TOML text: blanks, comments and line ends, the four kinds of strings, and keys
whose parts are joined by points. A line ends with a line feed, or with a carriage return and a line
feed; in strings of several lines both are read as a line feed.
-/

namespace Spintax.Toml

open Text (Reading)

/-- Whether a character is a blank or a tab. -/
def isBlank (c : Char) : Bool :=
  c == ' ' || c == '\t'

/-- Whether a character may stand in a comment or a string of one line. -/
def isText (c : Char) : Bool :=
  c == '\t' || (' ' ≤ c && c ≠ '\x7f')

/-- The characters from the first that is not blank. -/
def skipBlanks (cs : List Char) : List Char :=
  cs.dropWhile isBlank

/-- Skipping blanks never makes a text longer. -/
theorem length_skipBlanks_le (cs : List Char) : (skipBlanks cs).length ≤ cs.length :=
  (List.dropWhile_suffix isBlank).length_le

/-- The characters from the first that is neither blank nor in a comment, over any number of lines. -/
def skipLines : List Char → List Char
  | [] => []
  | '\r' :: '\n' :: cs => skipLines cs
  | c :: cs =>
    if isBlank c || c == '\n' then skipLines cs
    else if c == '#' then skipLines (cs.dropWhile isText)
    else c :: cs
termination_by cs => cs.length
decreasing_by
  · simp only [List.length_cons]; omega
  · simp
  · exact Nat.lt_succ_of_le (List.dropWhile_suffix isText).length_le

/-- Skipping lines never makes a text longer. -/
theorem length_skipLines_le (cs : List Char) : (skipLines cs).length ≤ cs.length := by
  fun_induction skipLines cs with
  | case1 => simp
  | case2 cs ih => simp only [List.length_cons]; omega
  | case3 c cs _ _ ih => simp only [List.length_cons]; omega
  | case4 c cs _ _ _ ih =>
    have := (List.dropWhile_suffix isText (l := cs)).length_le
    simp only [List.length_cons]
    omega
  | case5 => simp

/-- The characters behind the end of a line, if the line ends here. -/
def afterLineEnd? : List Char → Option (List Char)
  | '\n' :: cs => some cs
  | '\r' :: '\n' :: cs => some cs
  | _ => none

/-- Passing the end of a line makes a text shorter. -/
theorem length_of_afterLineEnd? {cs rest : List Char} (ended : afterLineEnd? cs = some rest) :
    rest.length < cs.length := by
  unfold afterLineEnd? at ended
  split at ended
  · obtain rfl := Option.some.inj ended
    simp
  · obtain rfl := Option.some.inj ended
    simp only [List.length_cons]
    omega
  · simp at ended

/-- The characters behind a comment, if there is one. -/
def skipComment : List Char → List Char
  | '#' :: cs => cs.dropWhile isText
  | cs => cs

/-- Pass the rest of a line: blanks, a comment, and the end of the line or of the text. -/
def endLine? (cs : List Char) : Option (List Char) :=
  match skipComment (skipBlanks cs) with
  | [] => some []
  | c :: rest => afterLineEnd? (c :: rest)

/-- The character whose number is written by the first `size` characters in hexadecimal. -/
def code? (size : Nat) (cs : List Char) : Option Char := do
  let digits := cs.take size
  if digits.length == size then
    let code ← Text.numberOf? 16 digits
    if code.isValidChar then some (Char.ofNat code) else none
  else
    none

/-- Read what follows the backslash of an escape. -/
def escape? : (cs : List Char) → Option (Reading Char cs)
  | 'b' :: cs => some (.single '\x08' 'b' cs)
  | 't' :: cs => some (.single '\t' 't' cs)
  | 'n' :: cs => some (.single '\n' 'n' cs)
  | 'f' :: cs => some (.single '\x0c' 'f' cs)
  | 'r' :: cs => some (.single '\r' 'r' cs)
  | '"' :: cs => some (.single '"' '"' cs)
  | '\\' :: cs => some (.single '\\' '\\' cs)
  | 'u' :: cs => (code? 4 cs).map fun c =>
    ⟨c, cs.drop 4, by simp only [List.length_drop, List.length_cons]; omega⟩
  | 'U' :: cs => (code? 8 cs).map fun c =>
    ⟨c, cs.drop 8, by simp only [List.length_drop, List.length_cons]; omega⟩
  | _ => none

/-- Read a string of one line up to its closing quote; `read` holds the characters before, last one
first. Only double quotes know escapes. -/
def lineString? (quote : Char) (read : List Char) : (cs : List Char) → Option (Reading String cs)
  | [] => none
  | c :: cs =>
    if c == quote then
      some (.single (String.ofList read.reverse) c cs)
    else if c == '\\' && quote == '"' then
      match escape? cs with
      | some ⟨escaped, rest, shorter⟩ =>
        (lineString? quote (escaped :: read) rest).map fun reading =>
          reading.widen (by simp only [List.length_cons]; omega)
      | none => none
    else if isText c then
      (lineString? quote (c :: read) cs).map fun reading => reading.widen (by simp)
    else
      none
termination_by cs => cs.length

/-- The characters from the first that is neither a blank nor the end of a line. -/
def skipSpace : List Char → List Char
  | '\r' :: '\n' :: cs => skipSpace cs
  | c :: cs => if isBlank c || c == '\n' then skipSpace cs else c :: cs
  | [] => []
termination_by cs => cs.length

/-- Skipping space never makes a text longer. -/
theorem length_skipSpace_le (cs : List Char) : (skipSpace cs).length ≤ cs.length := by
  fun_induction skipSpace cs with
  | case1 cs ih => simp only [List.length_cons]; omega
  | case2 c cs _ _ ih => simp only [List.length_cons]; omega
  | case3 => simp
  | case4 => simp

/-- Read a string of several lines up to its three closing quotes, before which up to two more may
stand. Between double quotes a backslash at the end of a line leaves out all space up to the next
character. -/
def longString? (quote : Char) (read : List Char) : (cs : List Char) → Option (Reading String cs)
  | [] => none
  | c :: cs =>
    if c == quote then
      let more := (cs.takeWhile (· == quote)).length
      if more ≥ 2 then
        let kept := min (more - 2) 2
        some ⟨String.ofList (List.replicate kept quote ++ read).reverse, cs.drop (2 + kept), by
          simp only [List.length_drop, List.length_cons]; omega⟩
      else
        (longString? quote (c :: read) cs).map fun reading => reading.widen (by simp)
    else if c == '\\' && quote == '"' then
      match ended : afterLineEnd? (skipBlanks cs) with
      | some rest =>
        have fewer : (skipSpace rest).length < (c :: cs).length := by
          have space := length_skipSpace_le rest
          have line := length_of_afterLineEnd? ended
          have blanks := length_skipBlanks_le cs
          simp only [List.length_cons]
          omega
        (longString? quote read (skipSpace rest)).map fun reading =>
          reading.widen (Nat.le_of_lt fewer)
      | none =>
        match escape? cs with
        | some ⟨escaped, rest, shorter⟩ =>
          (longString? quote (escaped :: read) rest).map fun reading =>
            reading.widen (by simp only [List.length_cons]; omega)
        | none => none
    else
      match ended : afterLineEnd? (c :: cs) with
      | some rest =>
        have fewer := length_of_afterLineEnd? ended
        (longString? quote ('\n' :: read) rest).map fun reading =>
          reading.widen (Nat.le_of_lt fewer)
      | none =>
        if isText c then
          (longString? quote (c :: read) cs).map fun reading => reading.widen (by simp)
        else
          none
termination_by cs => cs.length
decreasing_by
  · simp
  · exact fewer
  · simp only [List.length_cons]; omega
  · exact fewer
  · simp

/-- Read a string of any kind. A line end directly behind three opening quotes does not count. -/
def string? : (cs : List Char) → Option (Reading String cs)
  | a :: b :: c :: cs =>
    if a != '"' && a != '\'' then none
    else if a == b && b == c then
      match ended : afterLineEnd? cs with
      | some rest =>
        (longString? a [] rest).map fun reading => reading.widen (by
          have := length_of_afterLineEnd? ended
          simp only [List.length_cons]
          omega)
      | none =>
        (longString? a [] cs).map fun reading => reading.widen (by
          simp only [List.length_cons]; omega)
    else
      (lineString? a [] (b :: c :: cs)).map fun reading => reading.widen (by simp)
  | a :: cs =>
    if a == '"' || a == '\'' then
      (lineString? a [] cs).map fun reading => reading.widen (by simp)
    else
      none
  | [] => none

/-- Whether a character may stand in a key without quotes. -/
def isBare (c : Char) : Bool :=
  c.isAlphanum || c == '-' || c == '_'

/-- Read one part of a key. -/
def keyPart? : (cs : List Char) → Option (Reading String cs)
  | '"' :: cs => (lineString? '"' [] cs).map fun reading => reading.widen (by simp)
  | '\'' :: cs => (lineString? '\'' [] cs).map fun reading => reading.widen (by simp)
  | cs =>
    if noPart : (cs.takeWhile isBare).isEmpty then none
    else some ⟨String.ofList (cs.takeWhile isBare), cs.dropWhile isBare,
      Text.length_dropWhile_lt noPart⟩

/-- How many parts a key may have. -/
def partLimit : Nat := 79

/-- Read a key with the blanks around its parts; `read` holds the parts before, last one first. -/
def key? (read : List String) (cs : List Char) : Option (Reading (List String) cs) :=
  match keyPart? (skipBlanks cs) with
  | none => none
  | some ⟨part, rest, shorter⟩ =>
    match after : skipBlanks rest with
    | '.' :: more =>
      have fewer : more.length < cs.length := by
        have before := length_skipBlanks_le cs
        have behind := length_skipBlanks_le rest
        rw [after, List.length_cons] at behind
        omega
      (key? (part :: read) more).map fun reading => reading.widen (Nat.le_of_lt fewer)
    | behindKey =>
      if read.length < partLimit then
        some ⟨(part :: read).reverse, behindKey, by
          have before := length_skipBlanks_le cs
          have behind := length_skipBlanks_le rest
          rw [after] at behind
          omega⟩
      else
        none
termination_by cs.length

end Spintax.Toml
