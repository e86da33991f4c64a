import Spintax.Text.Reading
import Spintax.Yaml.Cursor
import Spintax.Yaml.Token

/-!
# Anchors, tags and directives of YAML

The parts of a text that describe a node or a document: the name of an anchor or an alias, a tag with
its handle and suffix, and the two directives. Each is read from the place of its indicator.
-/

namespace Spintax.Yaml

/-- Whether a character may follow the name of an anchor. -/
def followsName (c : Char) : Bool :=
  isBlank c || isBreak c ||
    ['?', ':', ',', ']', '\x7d', '%', '@', '\x60'].contains c

/-- Read the name of an anchor or an alias. -/
def anchorName? (cursor : Cursor) : Option (String × Cursor) :=
  let name := cursor.step.run isWordChar
  let after := cursor.step.passRun isWordChar
  if name.isEmpty || after.rest.head?.any (fun c => !followsName c) then none
  else some (String.ofList name, after)

/-- Whether a character may stand in a tag. Between angle brackets, and in the stem of a directive,
there may be flow indicators too. -/
def isTagChar (verbatim : Bool) (c : Char) : Bool :=
  isWordChar c || [';', '/', '?', ':', '@', '&', '=', '+', '$', '.', '%', '!', '~', '*', '\'', '(',
    ')'].contains c || (verbatim && [',', '[', ']'].contains c)

/-- The byte that a percent sign and two hexadecimal digits write. -/
def escapedByte? : List Char → Option (Nat × List Char)
  | '%' :: a :: b :: rest => (Text.numberOf? 16 [a, b]).map fun byte => (byte, rest)
  | _ => none

/-- The number of bytes of a character, by its first byte, and the bits that this byte carries. -/
def leadingByte? (byte : Nat) : Option (Nat × Nat) :=
  if byte < 0x80 then some (1, byte)
  else if 0xC0 ≤ byte && byte < 0xE0 then some (2, byte % 32)
  else if 0xE0 ≤ byte && byte < 0xF0 then some (3, byte % 16)
  else if 0xF0 ≤ byte && byte < 0xF8 then some (4, byte % 8)
  else none

/-- Read the further bytes of an escaped character. -/
def trailingBytes? (code : Nat) : (count : Nat) → List Char → Option (Nat × List Char)
  | 0, cs => some (code, cs)
  | count + 1, cs => do
    let (byte, rest) ← escapedByte? cs
    if byte / 64 == 2 then trailingBytes? (code * 64 + byte % 64) count rest else none

/-- The text of a tag in which bytes may be escaped; `limit` bounds the number of its characters. -/
def unescapeTag? : (limit : Nat) → List Char → Option (List Char)
  | 0, cs => if cs.isEmpty then some [] else none
  | _, [] => some []
  | limit + 1, c :: cs =>
    if c == '%' then do
      let (byte, rest) ← escapedByte? (c :: cs)
      let (size, bits) ← leadingByte? byte
      let (code, rest) ← trailingBytes? bits (size - 1) rest
      if code.isValidChar then return Char.ofNat code :: (← unescapeTag? limit rest) else none
    else do
      return c :: (← unescapeTag? limit cs)

/-- Read the characters of a tag. -/
def tagText? (verbatim : Bool) (cursor : Cursor) : Option (String × Cursor) := do
  let run := cursor.run (isTagChar verbatim)
  let text ← unescapeTag? run.length run
  return (String.ofList text, cursor.passRun (isTagChar verbatim))

/-- The characters of a tag handle at the cursor: an exclamation mark and a word, and a second mark
if there is one. -/
def handleAt (cursor : Cursor) : List Char :=
  let word := cursor.step.run isWordChar
  let closing := if (cursor.step.passRun isWordChar).isAt '!' then ['!'] else []
  '!' :: (word ++ closing)

/-- Whether a handle has a mark at its end too, so that a suffix follows it. -/
def isClosed (handle : List Char) : Bool :=
  handle.length > 1 && handle.getLast? == some '!'

/-- The handle and the suffix of a tag, before what follows it is looked at. -/
def tagParts? (cursor : Cursor) : Option (String × String × Cursor) :=
  let handle := handleAt cursor
  if cursor.rest[1]? == some '<' then do
    let (text, after) ← tagText? true (cursor.pass 2)
    if text.isEmpty || !after.isAt '>' then none else some ("", text, after.step)
  else if isClosed handle then do
    let (suffix, after) ← tagText? false (cursor.pass handle.length)
    if suffix.isEmpty then none else some (String.ofList handle, suffix, after)
  else do
    let (rest, after) ← tagText? false (cursor.pass handle.length)
    let suffix := String.ofList (handle.drop 1) ++ rest
    some (if suffix.isEmpty then ("", "!", after) else ("!", suffix, after))

/-- Read a tag. -/
def tag? (inFlow : Bool) (cursor : Cursor) : Option (Token × Cursor) := do
  let (handle, suffix, after) ← tagParts? cursor
  if (inFlow && after.isAt ',') || after.gapAt 0 then some (.tag handle suffix, after) else none

/-- Read a number of at most nine digits. -/
def versionNumber? (cursor : Cursor) : Option (Nat × Cursor) :=
  let digits := cursor.run Char.isDigit
  if digits.isEmpty || digits.length > 9 then none
  else some (Text.decimalOf digits, cursor.passRun Char.isDigit)

/-- Read the numbers of a version directive. -/
def version? (cursor : Cursor) : Option (Token × Cursor) := do
  let (major, cursor) ← versionNumber? (cursor.passRun isBlank)
  if cursor.isAt '.' then
    let (minor, cursor) ← versionNumber? cursor.step
    some (.version major minor, cursor)
  else
    none

/-- Read the handle and the stem of a tag directive. -/
def tagDirective? (cursor : Cursor) : Option (Token × Cursor) := do
  let start := cursor.passRun isBlank
  let handle := handleAt start
  if !start.isAt '!' || !(isClosed handle || handle.length == 1) then
    none
  else
    let after := start.pass handle.length
    if !after.rest.head?.any isBlank then
      none
    else
      let (stem, cursor) ← tagText? true (after.passRun isBlank)
      if stem.isEmpty || !cursor.gapAt 0 then none
      else some (.tagDirective (String.ofList handle) stem, cursor)

/-- Read a directive, whose percent sign is at the cursor. -/
def directive? (cursor : Cursor) : Option (Token × Cursor) :=
  let name := String.ofList (cursor.step.run isWordChar)
  let after := cursor.step.passRun isWordChar
  if !after.gapAt 0 then none
  else if name == "YAML" then version? after
  else if name == "TAG" then tagDirective? after
  else none

end Spintax.Yaml
