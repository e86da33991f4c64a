import Spintax.Entries
import Spintax.Yaml.Layout

/-!
# Nodes of a YAML document

A document is a tree of scalars, sequences and mappings, in which an alias stands for a node that was
anchored before. Anchors are numbered: an anchor gets as its number the count of the names anchored
before it. An alias refers to the number that its name had last.
-/

namespace Spintax.Yaml

/-- What can be attached to a node: the number of its anchor and its full tag. -/
structure Properties where
  anchor : Option Nat := none
  tag : Option String := none
deriving Repr

/-- A node. -/
inductive Node where
  | alias (number : Nat)
  | scalar (properties : Properties) (text : String) (plain : Bool)
  | sequence (properties : Properties) (items : List Node)
  | mapping (properties : Properties) (members : List (Node × Node))
deriving Repr, Inhabited

/-- The tokens that are left, and the numbers of the anchored names. -/
structure Remainder where
  tokens : List Token
  anchors : Entries Nat := []

/-- A computation that takes tokens from the front, or fails. -/
abbrev Reader := StateT Remainder Option

namespace Reader

/-- The next token; none at the end of the text. -/
def peek : Reader (Option Token) := do
  return (← get).tokens.head?

/-- Pass the next token. -/
def skip : Reader Unit :=
  modify fun remainder => { remainder with tokens := remainder.tokens.drop 1 }

/-- Whether the next token is one of these. -/
def isNext (tokens : List Token) : Reader Bool := do
  return (← peek).any tokens.contains

/-- Pass the next token, which has to be this one. -/
def expect (token : Token) : Reader Unit := do
  if ← isNext [token] then skip else failure

/-- The number of a name that is anchored now. -/
def number (name : String) : Reader Nat := do
  let remainder ← get
  let number := remainder.anchors.length
  set { remainder with anchors := remainder.anchors.insert name number }
  return number

/-- The full tag of a handle and a suffix, by the stems of the handles. -/
def fullTag (stems : Entries String) (handle suffix : String) : Reader String :=
  if handle.isEmpty then
    pure suffix
  else
    match stems.find? handle with
    | some stem => pure (stem ++ suffix)
    | none => failure

/-- Read an anchor, if there is one. -/
def anchor : Reader (Option String) := do
  match ← peek with
  | some (.anchor name) =>
    skip
    return some name
  | _ => return none

/-- Read a tag, if there is one. -/
def tag : Reader (Option (String × String)) := do
  match ← peek with
  | some (.tag handle suffix) =>
    skip
    return some (handle, suffix)
  | _ => return none

/-- Read the properties of a node, in either order. -/
def properties (stems : Entries String) : Reader Properties := do
  let early ← anchor
  let tag ← tag
  let late ← if early.isNone && tag.isSome then anchor else pure none
  let full ← match tag with
    | some (handle, suffix) => do pure (some (← fullTag stems handle suffix))
    | none => pure none
  match early <|> late with
  | some name => return { anchor := some (← number name), tag := full }
  | none => return { tag := full }

/-- The empty scalar that stands where a node is left out. -/
def nothing : Node :=
  .scalar {} "" true

mutual

/-- Read a node. Block collections are read only where `block` allows, and a sequence that is not
indented only as the key or the value of a block mapping. Fuel bounds the steps. -/
def node (stems : Entries String) (block indentless : Bool) : (fuel : Nat) → Reader Node
  | 0 => failure
  | fuel + 1 => do
    match ← peek with
    | some (.alias name) =>
      skip
      match (← get).anchors.find? name with
      | some number => return .alias number
      | none => failure
    | _ =>
      let properties ← properties stems
      match ← peek with
      | some (.scalar text plain) =>
        skip
        if properties.tag == some "!" then
          return .scalar { properties with tag := none } text plain
        else
          return .scalar properties text plain
      | some .flowSequenceStart =>
        skip
        return .sequence properties (← flowItems stems true fuel)
      | some .flowMappingStart =>
        skip
        return .mapping properties (← flowMembers stems true fuel)
      | some .blockEntry =>
        if indentless then return .sequence properties (← indentlessItems stems fuel)
        else bare properties
      | some .blockSequenceStart =>
        if block then
          skip
          return .sequence properties (← blockItems stems fuel)
        else
          bare properties
      | some .blockMappingStart =>
        if block then
          skip
          return .mapping properties (← blockMembers stems fuel)
        else
          bare properties
      | _ => bare properties
where
  /-- A node without content, which needs a property. -/
  bare (properties : Properties) : Reader Node :=
    if properties.anchor.isSome || properties.tag.isSome then pure (.scalar properties "" true)
    else failure

/-- Read the items of a block sequence and its end. -/
def blockItems (stems : Entries String) : (fuel : Nat) → Reader (List Node)
  | 0 => failure
  | fuel + 1 => do
    if ← isNext [.blockEntry] then
      skip
      let item ← if ← isNext [.blockEntry, .blockEnd] then pure nothing
        else node stems true false fuel
      return item :: (← blockItems stems fuel)
    else
      expect .blockEnd
      return []

/-- Read the items of a block sequence that is not indented. -/
def indentlessItems (stems : Entries String) : (fuel : Nat) → Reader (List Node)
  | 0 => failure
  | fuel + 1 => do
    if ← isNext [.blockEntry] then
      skip
      let item ← if ← isNext [.blockEntry, .key, .value, .blockEnd] then pure nothing
        else node stems true false fuel
      return item :: (← indentlessItems stems fuel)
    else
      return []

/-- Read the members of a block mapping and its end. -/
def blockMembers (stems : Entries String) : (fuel : Nat) → Reader (List (Node × Node))
  | 0 => failure
  | fuel + 1 => do
    if ← isNext [.key] then
      skip
      let key ← blockPart stems fuel
      let value ← if ← isNext [.value] then do
          skip
          blockPart stems fuel
        else
          pure nothing
      return (key, value) :: (← blockMembers stems fuel)
    else
      expect .blockEnd
      return []

/-- Read a key or a value of a block mapping. -/
def blockPart (stems : Entries String) : (fuel : Nat) → Reader Node
  | 0 => failure
  | fuel + 1 => do
    if ← isNext [.key, .value, .blockEnd] then pure nothing else node stems true true fuel

/-- Read the items of a sequence in brackets and its end. -/
def flowItems (stems : Entries String) (first : Bool) : (fuel : Nat) → Reader (List Node)
  | 0 => failure
  | fuel + 1 => do
    if ← isNext [.flowSequenceEnd] then
      skip
      return []
    else
      if !first then expect .flowEntry
      if ← isNext [.flowSequenceEnd] then
        skip
        return []
      else if ← isNext [.key] then
        skip
        let member ← flowPair stems fuel
        return .mapping {} [member] :: (← flowItems stems false fuel)
      else
        let item ← node stems false false fuel
        return item :: (← flowItems stems false fuel)

/-- Read the single member of a mapping that is an item of a sequence in brackets. Where its key is
left out, the token that follows is passed. -/
def flowPair (stems : Entries String) : (fuel : Nat) → Reader (Node × Node)
  | 0 => failure
  | fuel + 1 => do
    let key ← if ← isNext [.value, .flowEntry, .flowSequenceEnd] then do
        skip
        pure nothing
      else
        node stems false false fuel
    if ← isNext [.value] then
      skip
      if ← isNext [.flowEntry, .flowSequenceEnd] then return (key, nothing)
      else return (key, ← node stems false false fuel)
    else
      return (key, nothing)

/-- Read the members of a mapping in braces and its end. -/
def flowMembers (stems : Entries String) (first : Bool) : (fuel : Nat) → Reader (List (Node × Node))
  | 0 => failure
  | fuel + 1 => do
    if ← isNext [.flowMappingEnd] then
      skip
      return []
    else
      if !first then expect .flowEntry
      if ← isNext [.flowMappingEnd] then
        skip
        return []
      else if ← isNext [.key] then
        skip
        let key ← flowPart stems fuel
        let value ← if ← isNext [.value] then do
            skip
            flowPart stems fuel
          else
            pure nothing
        return (key, value) :: (← flowMembers stems false fuel)
      else
        let key ← node stems false false fuel
        return (key, nothing) :: (← flowMembers stems false fuel)

/-- Read a key or a value of a mapping in braces. -/
def flowPart (stems : Entries String) : (fuel : Nat) → Reader Node
  | 0 => failure
  | fuel + 1 => do
    if ← isNext [.value, .flowEntry, .flowMappingEnd] then pure nothing
    else node stems false false fuel

end

/-- The handles that need no directive, with their stems. -/
def standardStems : Entries String :=
  [("!", "!"), ("!!", "tag:yaml.org,2002:")]

/-- Read the directives of a document: whether there are any, and the stems of its tag handles. One
version, 1.1 or 1.2, may be given, and each handle may be declared once. -/
def directives (versioned : Bool) (declared : Entries String) :
    (fuel : Nat) → Reader (Bool × Entries String)
  | 0 => failure
  | fuel + 1 => do
    match ← peek with
    | some (.version major minor) =>
      skip
      if versioned || major != 1 || (minor != 1 && minor != 2) then failure
      else directives true declared fuel
    | some (.tagDirective handle stem) =>
      skip
      if (declared.find? handle).isSome then failure
      else directives versioned (declared.insert handle stem) fuel
    | _ =>
      let missing := standardStems.filter fun entry => (declared.find? entry.1).isNone
      return (versioned || !declared.isEmpty, declared ++ missing)

/-- Pass the ends of documents. -/
def documentEnds : Reader Unit :=
  modify fun remainder =>
    { remainder with tokens := remainder.tokens.dropWhile (· == .documentEnd) }

/-- Read the only document of a text; none if the text holds no node. -/
def document (fuel : Nat) : Reader (Option Node) := do
  if (← peek).isNone then
    return none
  else
    let (directed, stems) ← directives false [] fuel
    let explicit ← isNext [.documentStart]
    if directed && !explicit then failure
    if explicit then skip
    let next ← peek
    let empty := match next with
      | none | some .documentStart | some .documentEnd | some (.version ..)
      | some (.tagDirective ..) => explicit
      | _ => false
    let root ← if empty then pure nothing else node stems true false fuel
    documentEnds
    if (← peek).isSome then failure
    return some root

end Reader

/-- The document of a text: none if the text is not YAML or has more than one document, and no node
if it is empty. -/
def documentOf? (text : String) : Option (Option Node) := do
  let tokens ← tokensOf? text
  let (root, _) ← (Reader.document (4 * tokens.length + 8)).run { tokens := tokens }
  return root

end Spintax.Yaml
