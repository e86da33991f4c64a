import Spintax.Yaml.Property
import Spintax.Yaml.Scalar
import Spintax.Yaml.Token

/-!
# The layout of a YAML text

The tokens of a text. Outside brackets indentation decides where collections begin and end. A colon
may turn what stands before it on the same line into a key; so every place where a key could begin
is remembered, and the key tokens are put in there when the colon is found.
-/

namespace Spintax.Yaml

/-- A place where a key may begin: the number of tokens before it and its position. A key that
begins a line of a block mapping is required to be one. -/
structure PossibleKey where
  tokens : Nat
  index : Nat
  line : Nat
  column : Nat
  required : Bool
deriving Repr

/-- The state of a text whose tokens are being collected. -/
structure Layout where
  cursor : Cursor
  /-- The tokens so far, last one first, and their number. -/
  tokens : List Token := []
  size : Nat := 0
  /-- The column of the innermost block collection, -1 outside all, and those of the outer ones. -/
  indent : Int := -1
  outerIndents : List Int := []
  /-- Whether a key may begin here. -/
  keyAllowed : Bool := true
  /-- The possible key of the innermost bracket, and those of the outer ones. -/
  possible : Option PossibleKey := none
  outerPossible : List (Option PossibleKey) := []

namespace Layout

/-- Whether brackets are open. -/
def inFlow (layout : Layout) : Bool :=
  !layout.outerPossible.isEmpty

/-- Add a token at the end. -/
def emit (layout : Layout) (token : Token) : Layout :=
  { layout with tokens := token :: layout.tokens, size := layout.size + 1 }

/-- Add a token that is written by so many characters. -/
def indicator (layout : Layout) (token : Token) (length : Nat) : Layout :=
  { layout.emit token with cursor := layout.cursor.pass length }

/-- Put in a token after the first `position` ones. -/
def insert (layout : Layout) (position : Nat) (token : Token) : Layout :=
  { layout with
    tokens := layout.tokens.insertIdx (layout.size - position) token
    size := layout.size + 1 }

/-- End the block collections that are deeper than a column. -/
def closeTo (column : Int) (layout : Layout) : List Int → Layout
  | [] => layout
  | outer :: rest =>
    if !layout.inFlow && column < layout.indent then
      closeTo column { layout.emit .blockEnd with indent := outer, outerIndents := rest } rest
    else
      layout

/-- End the block collections that are deeper than a column. -/
def unwind (layout : Layout) (column : Int) : Layout :=
  layout.closeTo column layout.outerIndents

/-- Begin a block collection at a column, with its token after the first `position` ones, unless one
is open there. -/
def beginBlock (layout : Layout) (column position : Nat) (token : Token) : Layout :=
  if !layout.inFlow && layout.indent < column then
    { layout.insert position token with
      indent := column
      outerIndents := layout.indent :: layout.outerIndents }
  else
    layout

/-- Give up the possible key; a required one cannot be given up. -/
def dropKey (layout : Layout) : Option Layout :=
  match layout.possible with
  | some key => if key.required then none else some { layout with possible := none }
  | none => some layout

/-- Remember that a key may begin here, if one is allowed. -/
def saveKey (layout : Layout) : Option Layout :=
  if layout.keyAllowed then do
    let cursor := layout.cursor
    let required := !layout.inFlow && layout.indent == cursor.column
    let layout ← layout.dropKey
    return { layout with
      possible := some ⟨layout.size, cursor.index, cursor.line, cursor.column, required⟩ }
  else
    some layout

/-- A possible key as it stands when the text has come to the cursor: a key is on one line and at
most 1024 characters long. -/
def refreshKey? (cursor : Cursor) : Option PossibleKey → Option (Option PossibleKey)
  | some key =>
    if key.line < cursor.line || key.index + 1024 < cursor.index then
      if key.required then none else some none
    else
      some (some key)
  | none => some none

/-- Give up all possible keys that are too far back. -/
def refreshKeys (layout : Layout) : Option Layout := do
  return { layout with
    possible := ← refreshKey? layout.cursor layout.possible
    outerPossible := ← layout.outerPossible.mapM (refreshKey? layout.cursor) }

/-- Pass blanks, comments and line breaks up to the next token. A tab is not passed where a key may
begin outside brackets. After a line break outside brackets a key may begin. -/
def toNextToken (inFlow keyAllowed : Bool) (cursor : Cursor) : Bool × Cursor :=
  match _next : cursor.rest with
  | [] => (keyAllowed, cursor)
  | c :: _ =>
    if c == ' ' || (c == '\t' && (inFlow || !keyAllowed)) || (c == '\ufeff' && cursor.index == 0) then
      toNextToken inFlow keyAllowed cursor.step
    else if isBreak c then
      toNextToken inFlow (keyAllowed || !inFlow) cursor.nextLine
    else if c == '#' then
      let after := cursor.step.passRun fun c => !isBreak c
      if after.atEnd then (keyAllowed, after)
      else toNextToken inFlow (keyAllowed || !inFlow) after.nextLine
    else
      (keyAllowed, cursor)
termination_by cursor.rest.length
decreasing_by
  · exact Cursor.length_step_lt _next
  · exact Cursor.length_nextLine_lt _next
  · exact Nat.lt_of_le_of_lt (Nat.le_trans (Cursor.length_nextLine_le _)
      (Cursor.length_pass_le _ _)) (Cursor.length_step_lt _next)

/-- Go on where a scalar ended. -/
def afterScalar (layout : Layout) (plain : Bool) (reading : ScalarReading) : Layout :=
  { layout.emit (.scalar reading.text plain) with
    cursor := reading.cursor
    keyAllowed := layout.keyAllowed || reading.broken }

/-- Open a bracket. -/
def openFlow (layout : Layout) (token : Token) : Option Layout := do
  let layout ← layout.saveKey
  return { layout.indicator token 1 with
    keyAllowed := true
    possible := none
    outerPossible := layout.possible :: layout.outerPossible }

/-- Close a bracket. -/
def closeFlow (layout : Layout) (token : Token) : Option Layout := do
  let layout ← layout.dropKey
  let layout := { layout.indicator token 1 with keyAllowed := false }
  match layout.outerPossible with
  | possible :: outer => return { layout with possible := possible, outerPossible := outer }
  | [] => return layout

/-- The indicator of an item of a block sequence. -/
def blockEntry (layout : Layout) : Option Layout := do
  if !layout.inFlow && !layout.keyAllowed then
    none
  else
    let layout := layout.beginBlock layout.cursor.column layout.size .blockSequenceStart
    let layout ← layout.dropKey
    return { layout.indicator .blockEntry 1 with keyAllowed := true }

/-- The indicator of a key. -/
def keyIndicator (layout : Layout) : Option Layout := do
  if !layout.inFlow && !layout.keyAllowed then
    none
  else
    let layout := layout.beginBlock layout.cursor.column layout.size .blockMappingStart
    let layout ← layout.dropKey
    return { layout.indicator .key 1 with keyAllowed := !layout.inFlow }

/-- The indicator of a value. What stands before it becomes a key if it can be one. -/
def valueIndicator (layout : Layout) : Option Layout :=
  match layout.possible with
  | some key =>
    let layout := (layout.insert key.tokens .key).beginBlock key.column key.tokens .blockMappingStart
    some { layout.indicator .value 1 with possible := none, keyAllowed := false }
  | none =>
    if !layout.inFlow && !layout.keyAllowed then
      none
    else
      let layout := layout.beginBlock layout.cursor.column layout.size .blockMappingStart
      some { layout.indicator .value 1 with keyAllowed := !layout.inFlow }

/-- A property of a node or an alias, as `read` reads it. -/
def property (layout : Layout) (read : Cursor → Option (Token × Cursor)) : Option Layout := do
  let layout ← layout.saveKey
  let (token, cursor) ← read layout.cursor
  return { layout.emit token with cursor := cursor, keyAllowed := false }

/-- A quoted scalar. -/
def quotedScalar (layout : Layout) (quote : Char) : Option Layout := do
  let layout ← layout.saveKey
  let reading ← quoted? quote layout.cursor
  return { layout with keyAllowed := false }.afterScalar false reading

/-- A plain scalar. -/
def plainScalar (layout : Layout) : Option Layout := do
  let layout ← layout.saveKey
  let reading ← plain? layout.inFlow (layout.indent + 1).toNat layout.cursor
  return { layout with keyAllowed := false }.afterScalar true reading

/-- A block scalar. -/
def blockScalar (layout : Layout) (literal : Bool) : Option Layout := do
  let layout ← layout.dropKey
  let reading ← block? literal layout.indent layout.cursor
  return { layout with keyAllowed := true }.afterScalar false reading

/-- What ends all block collections: a directive or a document marker. -/
def boundary (layout : Layout) : Option Layout := do
  let layout ← (layout.unwind (-1)).dropKey
  return { layout with keyAllowed := false }

/-- A directive, which has a line for itself. -/
def directive (layout : Layout) : Option Layout := do
  let layout ← layout.boundary
  let (token, cursor) ← directive? layout.cursor
  return { layout.emit token with cursor := ← restOfLine? cursor }

/-- A document marker. -/
def marker (layout : Layout) (token : Token) : Option Layout := do
  return (← layout.boundary).indicator token 3

/-- Whether a plain scalar may begin with a character, followed by the rest of the text. -/
def beginsPlain (inFlow : Bool) (c : Char) (next : Option Char) : Bool :=
  let indicators := ['-', '?', ':', ',', '[', ']', '\x7b', '\x7d', '#', '&', '*', '!', '|', '>', '\'',
    '"', '%', '@', '\x60']
  if c == '-' then !next.any isBlank
  else if c == '?' || c == ':' then !inFlow && next.any fun c => !isBlank c && !isBreak c
  else !indicators.contains c && !isBlank c && !isBreak c

/-- Collect the token that begins with the character `c` at the cursor. -/
def token (layout : Layout) (c : Char) (next : Option Char) : Option Layout :=
  let gap := layout.cursor.gapAt 1
  if layout.cursor.column == 0 && c == '%' then layout.directive
  else if layout.cursor.atMarker '-' then layout.marker .documentStart
  else if layout.cursor.atMarker '.' then layout.marker .documentEnd
  else if c == '[' then layout.openFlow .flowSequenceStart
  else if c == '\x7b' then layout.openFlow .flowMappingStart
  else if c == ']' then layout.closeFlow .flowSequenceEnd
  else if c == '\x7d' then layout.closeFlow .flowMappingEnd
  else if c == ',' then do
    return { (← layout.dropKey).indicator .flowEntry 1 with keyAllowed := true }
  else if c == '-' && gap then layout.blockEntry
  else if c == '?' && (layout.inFlow || gap) then layout.keyIndicator
  else if c == ':' && (layout.inFlow || gap) then layout.valueIndicator
  else if c == '*' then
    layout.property fun cursor => (anchorName? cursor).map fun (name, after) => (.alias name, after)
  else if c == '&' then
    layout.property fun cursor => (anchorName? cursor).map fun (name, after) => (.anchor name, after)
  else if c == '!' then layout.property (tag? layout.inFlow)
  else if c == '|' && !layout.inFlow then layout.blockScalar true
  else if c == '>' && !layout.inFlow then layout.blockScalar false
  else if c == '\'' || c == '"' then layout.quotedScalar c
  else if beginsPlain layout.inFlow c next then layout.plainScalar
  else none

/-- Collect the remaining tokens, at most `limit` of which are written in the text. -/
def tokens? : (limit : Nat) → Layout → Option (List Token)
  | 0, _ => none
  | limit + 1, layout => do
    let (keyAllowed, cursor) := toNextToken layout.inFlow layout.keyAllowed layout.cursor
    let layout ← { layout with keyAllowed := keyAllowed, cursor := cursor }.refreshKeys
    let layout := layout.unwind cursor.column
    match cursor.rest with
    | [] => return (← (layout.unwind (-1)).dropKey).tokens.reverse
    | c :: rest => tokens? limit (← layout.token c rest.head?)

end Layout

/-- Whether a character may stand in a YAML text at all. -/
def isPrintable (c : Char) : Bool :=
  c == '\t' || c == '\n' || c == '\r' || c == '\x85' || (' ' ≤ c && c ≤ '~') ||
    ('\xa0' ≤ c && c ≠ '\ufffe' && c ≠ '\uffff')

/-- The tokens of a text. -/
def tokensOf? (text : String) : Option (List Token) :=
  let cs := text.toList
  if cs.all isPrintable then Layout.tokens? (cs.length + 1) { cursor := { rest := cs } } else none

end Spintax.Yaml
