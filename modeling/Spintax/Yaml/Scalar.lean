import Spintax.Text.Reading
import Spintax.Yaml.Cursor

/-!
# Scalars of YAML

Plain, quoted and block scalars. In plain and quoted scalars a line break with the blanks around it
becomes one blank, and each further break stays; block scalars keep their lines, literally or
folded.
-/

namespace Spintax.Yaml

/-- Blanks and line breaks between two parts of a scalar; characters are kept last one first. -/
structure Gap where
  blanks : List Char := []
  /-- The first line break; none if it was escaped. -/
  leading : Option Char := none
  trailing : List Char := []
  broken : Bool := false

namespace Gap

/-- What a gap stands for, last character first: its blanks if it has no break; else the first
break becomes a blank if no other follows. -/
def text (gap : Gap) : List Char :=
  if !gap.broken then gap.blanks
  else
    match gap.leading with
    | some '\n' => if gap.trailing.isEmpty then [' '] else gap.trailing
    | some c => gap.trailing ++ [c]
    | none => gap.trailing

/-- A gap with one more blank; blanks after a break do not count. -/
def addBlank (gap : Gap) (c : Char) : Gap :=
  if gap.broken then gap else { gap with blanks := c :: gap.blanks }

/-- A gap with one more line break. -/
def addBreak (gap : Gap) (c : Char) : Gap :=
  if gap.broken then { gap with trailing := c :: gap.trailing }
  else { gap with leading := some c, broken := true }

end Gap

/-- The characters read so far, last one first, with a gap that turned out to lie inside. -/
def joinGap (read : List Char) : Option Gap → List Char
  | some gap => gap.text ++ read
  | none => read

/-- A scalar that was read, whether a line break was passed behind it, and where the text goes
on. -/
structure ScalarReading where
  text : String
  broken : Bool
  cursor : Cursor

/-- The characters that have a meaning of their own between brackets. -/
def isFlowIndicator (c : Char) : Bool :=
  c == ',' || c == '[' || c == ']' || c == '\x7b' || c == '\x7d'

/-- Whether a plain scalar ends before the next character. -/
def endsPlain (inFlow : Bool) (cursor : Cursor) : Bool :=
  match cursor.rest with
  | ':' :: _ => cursor.gapAt 1
  | c :: _ => inFlow && isFlowIndicator c
  | [] => true

/-- Whether a colon between brackets is followed by a character that it cannot be followed by. -/
def isStrayColon (inFlow : Bool) (cursor : Cursor) : Bool :=
  match cursor.rest with
  | ':' :: c :: _ => inFlow && (isFlowIndicator c || c == '?')
  | _ => false

/-- Read a plain scalar on from `read`, the characters so far, last one first, with the gap behind
them. The scalar ends at a comment, at an indicator, at a document marker, and outside brackets at a
column below `indent`. -/
def plainFrom? (inFlow : Bool) (indent : Nat) (read : List Char) (gap : Option Gap)
    (cursor : Cursor) : Option ScalarReading :=
  let result : ScalarReading := ⟨String.ofList read.reverse, gap.any Gap.broken, cursor⟩
  match _next : cursor.rest with
  | [] => some result
  | c :: _ =>
    if isBreak c then
      plainFrom? inFlow indent read (some ((gap.getD {}).addBreak cursor.breakChar)) cursor.nextLine
    else if isBlank c then
      if gap.any Gap.broken && cursor.column < indent && c == '\t' then
        none
      else
        plainFrom? inFlow indent read (some ((gap.getD {}).addBlank c)) cursor.step
    else if gap.isSome && (cursor.atDocumentMarker || c == '#' ||
        (!inFlow && cursor.column < indent)) then
      some result
    else if isStrayColon inFlow cursor then
      none
    else if endsPlain inFlow cursor then
      some result
    else
      plainFrom? inFlow indent (c :: joinGap read gap) none cursor.step
termination_by cursor.rest.length
decreasing_by
  · exact Cursor.length_nextLine_lt _next
  · exact Cursor.length_step_lt _next
  · exact Cursor.length_step_lt _next

/-- Read a plain scalar. -/
def plain? (inFlow : Bool) (indent : Nat) (cursor : Cursor) : Option ScalarReading :=
  plainFrom? inFlow indent [] none cursor

/-- The characters that are written by one letter behind a backslash. -/
def escapedChar? (c : Char) : Option Char :=
  match c with
  | '0' => some '\x00'
  | 'a' => some '\x07'
  | 'b' => some '\x08'
  | 't' => some '\t'
  | '\t' => some '\t'
  | 'n' => some '\n'
  | 'v' => some '\x0b'
  | 'f' => some '\x0c'
  | 'r' => some '\r'
  | 'e' => some '\x1b'
  | ' ' => some ' '
  | '"' => some '"'
  | '/' => some '/'
  | '\\' => some '\\'
  | 'N' => some '\x85'
  | '_' => some '\xa0'
  | 'L' => some '\u2028'
  | 'P' => some '\u2029'
  | _ => none

/-- The number of hexadecimal digits of a character that is written by its number. -/
def codeSize? (c : Char) : Option Nat :=
  match c with
  | 'x' => some 2
  | 'u' => some 4
  | 'U' => some 8
  | _ => none

/-- The character of a code point, if it is one. -/
def charOf? (code : Nat) : Option Char :=
  if code.isValidChar then some (Char.ofNat code) else none

/-- The character of the escape whose letter comes first, and how many characters write it. -/
def escape? : List Char → Option (Char × Nat)
  | [] => none
  | letter :: cs =>
    match escapedChar? letter with
    | some c => some (c, 1)
    | none => do
      let size ← codeSize? letter
      let digits := cs.take size
      if digits.length == size then
        return (← charOf? (← Text.numberOf? 16 digits), size + 1)
      else
        none

/-- Read a quoted scalar on from `read`, the characters so far, last one first, with the gap behind
them. A single quote inside single quotes is written twice; inside double quotes a backslash escapes
a character or a line break. -/
def quotedFrom? (quote : Char) (read : List Char) (gap : Option Gap) (cursor : Cursor) :
    Option ScalarReading :=
  match _next : cursor.rest with
  | [] => none
  | c :: cs =>
    if isBreak c then
      quotedFrom? quote read (some ((gap.getD {}).addBreak cursor.breakChar)) cursor.nextLine
    else if isBlank c then
      quotedFrom? quote read (some ((gap.getD {}).addBlank c)) cursor.step
    else if cursor.atDocumentMarker then
      none
    else
      let joined := joinGap read gap
      if c == quote then
        if quote == '\'' && cs.head? == some '\'' then
          quotedFrom? quote ('\'' :: joined) none cursor.step.step
        else
          some ⟨String.ofList joined.reverse, false, cursor.step⟩
      else if quote == '"' && c == '\\' then
        if cs.head?.any isBreak then
          quotedFrom? quote joined (some { broken := true }) cursor.step.nextLine
        else
          match escape? cs with
          | some (escaped, size) =>
            quotedFrom? quote (escaped :: joined) none (cursor.step.pass size)
          | none => none
      else
        quotedFrom? quote (c :: joined) none cursor.step
termination_by cursor.rest.length
decreasing_by
  · exact Cursor.length_nextLine_lt _next
  · exact Cursor.length_step_lt _next
  · exact Nat.lt_of_le_of_lt (Cursor.length_pass_le _ _) (Cursor.length_step_lt _next)
  · exact Nat.lt_of_le_of_lt (Cursor.length_nextLine_le _) (Cursor.length_step_lt _next)
  · exact Nat.lt_of_le_of_lt (Cursor.length_pass_le _ _) (Cursor.length_step_lt _next)
  · exact Cursor.length_step_lt _next

/-- Read a quoted scalar, whose opening quote is at the cursor. -/
def quoted? (quote : Char) (cursor : Cursor) : Option ScalarReading :=
  quotedFrom? quote [] none cursor.step

/-- What happens to the line breaks at the end of a block scalar: all are dropped, one is kept, or
all are kept. -/
inductive Chomping where
  | strip | clip | keep
deriving DecidableEq, Repr

/-- The chomping that a character indicates. -/
def chomping? (c : Char) : Option Chomping :=
  match c with
  | '-' => some .strip
  | '+' => some .keep
  | _ => none

/-- The indentation that a character indicates, which is not zero. -/
def increment? (c : Char) : Option Nat :=
  if c.isDigit && c != '0' then some (c.toNat - 48) else none

/-- Read the indicators of a block scalar, in either order: the chomping, and the indentation, which
is 0 if it is not given. -/
def blockHeader? (cursor : Cursor) : Option (Chomping × Nat × Cursor) :=
  match cursor.rest with
  | a :: b :: _ =>
    match chomping? a, chomping? b with
    | some chomping, _ =>
      if b.isDigit then (increment? b).map fun increment => (chomping, increment, cursor.pass 2)
      else some (chomping, 0, cursor.step)
    | none, some chomping =>
      if a.isDigit then (increment? a).map fun increment => (chomping, increment, cursor.pass 2)
      else some (.clip, 0, cursor)
    | none, none =>
      if a.isDigit then (increment? a).map fun increment => (.clip, increment, cursor.step)
      else some (.clip, 0, cursor)
  | [a] =>
    match chomping? a with
    | some chomping => some (chomping, 0, cursor.step)
    | none =>
      if a.isDigit then (increment? a).map fun increment => (.clip, increment, cursor.step)
      else some (.clip, 0, cursor)
  | [] => some (.clip, 0, cursor)

/-- Pass the blanks up to the end of the line and a comment there; nothing else may stand there. -/
def restOfLine? (cursor : Cursor) : Option Cursor :=
  let blank := cursor.passRun isBlank
  let after := if blank.isAt '#' then blank.passRun fun c => !isBreak c else blank
  if after.atEnd then some after
  else if after.atLineEnd then some after.nextLine
  else none

/-- Pass indentation and empty lines. With the indentation 0, which is not known yet, all blanks
count as indentation, and the deepest column reached is noted. The result is the line breaks passed,
last one first, the deepest column, and where a line that is not empty goes on. -/
def emptyLines? (indent : Nat) (breaks : List Char) (deepest : Nat) (cursor : Cursor) :
    Option (List Char × Nat × Cursor) :=
  let inside := indent == 0 || cursor.column < indent
  let deepest := max deepest cursor.column
  match _next : cursor.rest with
  | [] => some (breaks, deepest, cursor)
  | c :: _ =>
    if inside && c == ' ' then
      emptyLines? indent breaks deepest cursor.step
    else if inside && c == '\t' then
      none
    else if isBreak c then
      emptyLines? indent (cursor.breakChar :: breaks) deepest cursor.nextLine
    else
      some (breaks, deepest, cursor)
termination_by cursor.rest.length
decreasing_by
  · exact Cursor.length_step_lt _next
  · exact Cursor.length_nextLine_lt _next

/-- A block scalar in progress: the characters so far, the break behind the last line and the breaks
of empty lines after it, each last one first, and whether the last line began with a blank. -/
structure BlockText where
  read : List Char := []
  leading : Option Char := none
  trailing : List Char := []
  indented : Bool := false

namespace BlockText

/-- The characters up to the beginning of another line. A folded scalar turns a single break between
two lines that do not begin with a blank into a blank. -/
def beforeLine (literal : Bool) (block : BlockText) (startsBlank : Bool) : List Char :=
  let leading :=
    if !literal && block.leading == some '\n' && !block.indented && !startsBlank then
      if block.trailing.isEmpty then [' '] else []
    else
      block.leading.toList
  block.trailing ++ leading ++ block.read

/-- The text of the finished scalar. -/
def finish (chomping : Chomping) (block : BlockText) : String :=
  let chars := match chomping with
    | .strip => block.read
    | .clip => block.leading.toList ++ block.read
    | .keep => block.trailing ++ block.leading.toList ++ block.read
  String.ofList chars.reverse

end BlockText

/-- Read the lines of a block scalar whose indentation is known, at most `lines` of them. -/
def blockLines? (literal : Bool) (indent : Nat) :
    (lines : Nat) → BlockText → Cursor → Option (BlockText × Cursor)
  | 0, block, cursor => some (block, cursor)
  | lines + 1, block, cursor =>
    if cursor.column == indent && !cursor.atEnd then do
      let startsBlank := cursor.rest.head?.any isBlank
      let line := cursor.run fun c => !isBreak c
      let after := cursor.passRun fun c => !isBreak c
      let read := line.reverse ++ block.beforeLine literal startsBlank
      let (leading, next) :=
        if after.atEnd then (none, after) else (some after.breakChar, after.nextLine)
      let (trailing, _, next) ← emptyLines? indent [] 0 next
      blockLines? literal indent lines ⟨read, leading, trailing, startsBlank⟩ next
    else
      some (block, cursor)

/-- Read a block scalar, whose indicator is at the cursor, below a collection whose indentation is
`outer`. -/
def block? (literal : Bool) (outer : Int) (cursor : Cursor) : Option ScalarReading := do
  let (chomping, increment, cursor) ← blockHeader? cursor.step
  let cursor ← restOfLine? cursor
  let given := if increment == 0 then 0 else (max outer 0).toNat + increment
  let (breaks, deepest, cursor) ← emptyLines? given [] 0 cursor
  let indent := if given == 0 then max (max deepest (outer + 1).toNat) 1 else given
  let (block, cursor) ← blockLines? literal indent cursor.rest.length ⟨[], none, breaks, false⟩ cursor
  return ⟨block.finish chomping, false, cursor⟩

end Spintax.Yaml
