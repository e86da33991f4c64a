import Spintax.Yaml.Node
import Spintax.Yaml.Schema

/-!
# Values of YAML documents

A document read as a JSON value. A member name is the text of its scalar, whatever the scalar would
stand for as a value; a repeated name keeps its first position and takes its last value. Collections
nest at most 128 deep, and aliases are followed at most a hundred times as often as the document has
parts, so a small text cannot stand for a huge value.
-/

namespace Spintax.Yaml

/-- The number of parts of a document: one for a scalar or an alias, two for the ends of a
collection. -/
def Node.parts : Node → Nat
  | .alias _ => 1
  | .scalar _ _ _ => 1
  | .sequence _ items => 2 + partsOfItems items
  | .mapping _ members => 2 + partsOfMembers members
where
  partsOfItems : List Node → Nat
    | [] => 0
    | item :: rest => item.parts + partsOfItems rest
  partsOfMembers : List (Node × Node) → Nat
    | [] => 0
    | (key, value) :: rest => key.parts + value.parts + partsOfMembers rest

/-- The anchored nodes with their numbers, in the order in which they begin. -/
def Node.anchored : Node → List (Nat × Node)
  | .alias _ => []
  | .scalar properties text plain =>
    here properties (.scalar properties text plain)
  | .sequence properties items =>
    here properties (.sequence properties items) ++ anchoredItems items
  | .mapping properties members =>
    here properties (.mapping properties members) ++ anchoredMembers members
where
  here (properties : Properties) (node : Node) : List (Nat × Node) :=
    match properties.anchor with
    | some number => [(number, node)]
    | none => []
  anchoredItems : List Node → List (Nat × Node)
    | [] => []
    | item :: rest => item.anchored ++ anchoredItems rest
  anchoredMembers : List (Node × Node) → List (Nat × Node)
    | [] => []
    | (key, value) :: rest => key.anchored ++ value.anchored ++ anchoredMembers rest

/-- What aliases need: the anchored nodes, the last one first, and how often they may be followed. -/
structure Aliases where
  nodes : List (Nat × Node)
  limit : Nat

/-- A computation that counts the aliases followed, or fails. -/
abbrev Following := StateT Nat Option

/-- The node that an alias stands for. -/
def Aliases.follow (aliases : Aliases) (number : Nat) : Following Node := do
  let followed := (← get) + 1
  set followed
  if followed > aliases.limit then failure
  match aliases.nodes.lookup number with
  | some node => return node
  | none => failure

/-- The node itself, or what it stands for if it is an alias. -/
def Aliases.target (aliases : Aliases) (node : Node) : Following Node :=
  match node with
  | .alias number => aliases.follow number
  | other => pure other

/-- The text of a member name, which has to be a scalar. -/
def Aliases.name (aliases : Aliases) (node : Node) : Following String := do
  match ← aliases.target node with
  | .scalar _ text _ => return text
  | _ => failure

/-- Whether a tag is local to the document, which no value has a meaning for. -/
def isLocalTag (properties : Properties) : Bool :=
  properties.tag.any fun tag => tag.startsWith "!"

/-- The value of a node whose collections nest at most `depth` deep. -/
def Aliases.value (aliases : Aliases) : (depth : Nat) → Node → Following Json
  | depth, node => do
    match ← aliases.target node with
    | .scalar properties text plain =>
      if isLocalTag properties then failure
      match properties.tag with
      | some tag => liftM (taggedValue? tag text)
      | none => if plain then liftM (plainValue? text) else return .string text
    | .sequence properties items =>
      match depth with
      | 0 => failure
      | depth + 1 =>
        if isLocalTag properties then failure
        return .array (← items.mapM (aliases.value depth))
    | .mapping properties members =>
      match depth with
      | 0 => failure
      | depth + 1 =>
        if isLocalTag properties then failure
        let entries ← members.mapM fun (key, value) => do
          let name ← aliases.name key
          return (name, ← aliases.value depth value)
        return .object (Entries.ofList entries)
    | .alias _ => failure

/-- How deep collections may nest. -/
def depthLimit : Nat := 128

/-- The value that a text writes, if it is a single YAML document; nothing if it is empty. -/
def parse? (text : String) : Option Json := do
  match ← documentOf? text with
  | none => return .null
  | some root =>
    let aliases : Aliases := ⟨root.anchored.reverse, 100 * root.parts⟩
    let (value, _) ← (aliases.value depthLimit root).run 0
    return value

end Spintax.Yaml
