import Spintax.Settings.Value
import Spintax.Text.Lowercase
import Spintax.Text.Reading

/-!
# Paths of settings

A path names a place in a tree of settings: a key, a key inside a table, or a place in a list. Setting
a value makes the tables and lists on the way, and replaces what is neither. Keys are held in lower
case, so their case does not matter. A table is merged into the one that is there, key by key; any
other value replaces what was there.
-/

namespace Spintax

open Text (Reading)

/-- A place in a tree of settings. -/
inductive SettingPath where
  | key (name : String)
  | child (parent : SettingPath) (name : String)
  | item (parent : SettingPath) (index : Int)
deriving DecidableEq, Repr

namespace Setting

/-- The entries of a table; what is no table has none. -/
def entries : Setting → Entries Setting
  | .table entries => entries
  | _ => []

/-- The items of a list; what is no list has none. -/
def items : Setting → List Setting
  | .list items => items
  | _ => []

mutual

/-- The entries with a value under a name: a table is merged into the value that is there. -/
def put (name : String) (value : Setting) (entries : Entries Setting) : Entries Setting :=
  let name := Text.lowercase name
  match value with
  | .table incoming =>
    entries.insert name (merge incoming ((entries.find? name).getD (.table [])))
  | other => entries.insert name other

/-- A value with entries merged into it. A value that is no table gives way to one, unless there is
nothing to merge. -/
def merge (incoming : List (String × Setting)) (target : Setting) : Setting :=
  match incoming with
  | [] => target
  | (name, value) :: rest => merge rest (.table (put name value target.entries))

end

/-- The place of an index in a list of so many items; a negative one counts from the end. -/
def indexIn (size : Nat) (index : Int) : Nat :=
  if 0 ≤ index then index.toNat else size - index.natAbs

/-- The items with the one at a place changed. A list that is too short is filled up. -/
def changeItem (index : Nat) (change : Setting → Setting) (items : List Setting) : List Setting :=
  let filled := items ++ List.replicate (index + 1 - items.length) .unit
  filled.modify index change

end Setting

namespace SettingPath

/-- Change what is at the place of a path. -/
def modify (path : SettingPath) (change : Setting → Setting) (root : Setting) : Setting :=
  match path with
  | .key name =>
    let name := Text.lowercase name
    .table (root.entries.insert name (change ((root.entries.find? name).getD .unit)))
  | .child parent name =>
    let name := Text.lowercase name
    parent.modify (fun table =>
      .table (table.entries.insert name (change ((table.entries.find? name).getD .unit)))) root
  | .item parent index =>
    parent.modify (fun list =>
      .list (Setting.changeItem (Setting.indexIn list.items.length index) change list.items)) root

/-- Set the value at the place of a path. -/
def set (path : SettingPath) (value : Setting) (root : Setting) : Setting :=
  match path with
  | .key name => .table (Setting.put name value root.entries)
  | .child parent name =>
    parent.modify (fun table => .table (Setting.put name value table.entries)) root
  | .item parent index =>
    parent.modify (fun list =>
      .list (Setting.changeItem (Setting.indexIn list.items.length index) (fun _ => value)
        list.items)) root

/-- Whether a character may stand in the key of a path. -/
def isKeyChar (c : Char) : Bool :=
  c.isAlphanum || c == ' ' || c == '_' || c == '-'

/-- The index that characters write between brackets, with blanks around it. -/
def index? (cs : List Char) : Option Int :=
  let isBlank (c : Char) : Bool := c == ' ' || c == '\t'
  let cs := ((cs.dropWhile isBlank).reverse.dropWhile isBlank).reverse
  let (negative, digits) := match cs with
    | '-' :: rest => (true, rest)
    | _ => (false, cs)
  if digits.isEmpty || !digits.all Char.isDigit then
    none
  else
    let number : Int := Text.decimalOf digits
    let index := if negative then -number else number
    if -(1 <<< 63) ≤ index && index < 1 <<< 63 then some index else none

/-- Read a key. -/
def key? (cs : List Char) : Option (Reading String cs) :=
  if noKey : (cs.takeWhile isKeyChar).isEmpty then none
  else some ⟨String.ofList (cs.takeWhile isKeyChar), cs.dropWhile isKeyChar,
    Text.length_dropWhile_lt noKey⟩

/-- Read what follows a path up to the end: keys behind points and indices in brackets. -/
def extend? (path : SettingPath) : List Char → Option SettingPath
  | [] => some path
  | '.' :: cs =>
    match key? cs with
    | some ⟨name, rest, _⟩ => extend? (.child path name) rest
    | none => none
  | '[' :: cs =>
    match _close : cs.dropWhile (· != ']') with
    | _ :: rest =>
      match index? (cs.takeWhile (· != ']')) with
      | some index => extend? (.item path index) rest
      | none => none
    | [] => none
  | _ => none
termination_by cs => cs.length
decreasing_by
  · simp only [List.length_cons]; omega
  · have := (List.dropWhile_suffix (· != ']') (l := cs)).length_le
    rw [_close, List.length_cons] at this
    simp only [List.length_cons]
    omega

/-- The path that a text writes. -/
def parse? (text : String) : Option SettingPath :=
  match key? text.toList with
  | some reading => extend? (.key reading.value) reading.rest
  | none => none

end SettingPath

end Spintax
