/-!
# Places in a YAML text

A cursor is a place in a text: the characters from there on, with the line, the column and the index
of the first of them. Layout depends on all three.
-/

namespace Spintax.Yaml

/-- Whether a character ends a line. -/
def isBreak (c : Char) : Bool :=
  c == '\n' || c == '\r' || c == '\x85' || c == '\u2028' || c == '\u2029'

/-- Whether a character is a blank or a tab. -/
def isBlank (c : Char) : Bool :=
  c == ' ' || c == '\t'

/-- Whether a character may stand in the name of an anchor, a tag handle or a directive. -/
def isWordChar (c : Char) : Bool :=
  c.isAlphanum || c == '-' || c == '_'

/-- A place in a text. -/
structure Cursor where
  rest : List Char
  index : Nat := 0
  line : Nat := 0
  column : Nat := 0
deriving Repr

namespace Cursor

/-- Whether the next character is `c`. -/
def isAt (cursor : Cursor) (c : Char) : Bool :=
  cursor.rest.head? == some c

/-- Whether the text ends at the cursor. -/
def atEnd (cursor : Cursor) : Bool :=
  cursor.rest.isEmpty

/-- Whether the text is over, blank or at the end of a line `offset` characters further on. -/
def gapAt (cursor : Cursor) (offset : Nat) : Bool :=
  match cursor.rest[offset]? with
  | some c => isBlank c || isBreak c
  | none => true

/-- Whether the line is over at the cursor. -/
def atLineEnd (cursor : Cursor) : Bool :=
  match cursor.rest.head? with
  | some c => isBreak c
  | none => true

/-- Pass a number of characters of one line. -/
def pass (cursor : Cursor) (count : Nat) : Cursor :=
  { cursor with
    rest := cursor.rest.drop count
    index := cursor.index + count
    column := cursor.column + count }

/-- Pass the next character, which does not end the line. -/
def step (cursor : Cursor) : Cursor :=
  cursor.pass 1

/-- The number of characters of the line break at the cursor; a carriage return and a line feed are
one break. -/
def breakSize (cursor : Cursor) : Nat :=
  match cursor.rest with
  | '\r' :: '\n' :: _ => 2
  | _ => 1

/-- Pass a line break. -/
def nextLine (cursor : Cursor) : Cursor :=
  { rest := cursor.rest.drop cursor.breakSize
    index := cursor.index + cursor.breakSize
    line := cursor.line + 1
    column := 0 }

/-- The character that a line break stands for in a scalar: the two Unicode separators are kept, all
others are line feeds. -/
def breakChar (cursor : Cursor) : Char :=
  match cursor.rest with
  | '\u2028' :: _ => '\u2028'
  | '\u2029' :: _ => '\u2029'
  | _ => '\n'

/-- The longest run of characters that satisfy a test, none of which ends the line. -/
def run (cursor : Cursor) (test : Char → Bool) : List Char :=
  cursor.rest.takeWhile test

/-- Pass the longest run of characters that satisfy a test. -/
def passRun (cursor : Cursor) (test : Char → Bool) : Cursor :=
  cursor.pass (cursor.run test).length

/-- Whether a document marker of three equal characters stands at the cursor. -/
def atMarker (cursor : Cursor) (c : Char) : Bool :=
  cursor.column == 0 && cursor.rest.take 3 == [c, c, c] && cursor.gapAt 3

/-- Whether the start or the end of a document is marked at the cursor. -/
def atDocumentMarker (cursor : Cursor) : Bool :=
  cursor.atMarker '-' || cursor.atMarker '.'

/-- A step over a character makes the rest shorter. -/
theorem length_step_lt {cursor : Cursor} {c : Char} {cs : List Char}
    (next : cursor.rest = c :: cs) : cursor.step.rest.length < cursor.rest.length := by
  simp [step, pass, next]

/-- Passing characters never makes the rest longer. -/
theorem length_pass_le (cursor : Cursor) (count : Nat) :
    (cursor.pass count).rest.length ≤ cursor.rest.length := by
  simp [pass]

/-- Going to the next line never makes the rest longer. -/
theorem length_nextLine_le (cursor : Cursor) :
    cursor.nextLine.rest.length ≤ cursor.rest.length := by
  simp [nextLine]

/-- Going to the next line makes the rest shorter, if there is any. -/
theorem length_nextLine_lt {cursor : Cursor} {c : Char} {cs : List Char}
    (next : cursor.rest = c :: cs) : cursor.nextLine.rest.length < cursor.rest.length := by
  have : 0 < cursor.breakSize := by
    unfold breakSize
    split <;> decide
  simp only [nextLine, List.length_drop, next, List.length_cons]
  omega

end Cursor

end Spintax.Yaml
