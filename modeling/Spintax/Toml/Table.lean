import Spintax.Entries
import Spintax.Settings.Value

/-!
# Tables of TOML

Which definitions a TOML text may combine. A table comes into being by a header of its own, as a
parent that a longer header implies, or through the points of a dotted key. It may be defined by a
header once; dotted keys extend only what dotted keys have made; and no key is given twice.
-/

namespace Spintax.Toml

/-- How a table came into being. -/
inductive Origin where
  | header | implied | dotted
deriving DecidableEq, Repr

/-- What a key stands for while a text is being read: a finished value, a table that can still grow,
or tables that a repeated header has made. -/
inductive Item where
  | value (setting : Setting)
  | table (origin : Origin) (entries : List (String × Item))
  | tables (all : List (List (String × Item)))

namespace Item

mutual

/-- The finished value of an item. -/
def finish : Item → Setting
  | .value setting => setting
  | .table _ entries => .table (finishEntries entries)
  | .tables all => .list (finishTables all)

/-- The finished values of entries. -/
def finishEntries : List (String × Item) → List (String × Setting)
  | [] => []
  | (key, item) :: rest => (key, item.finish) :: finishEntries rest

/-- The finished tables of a repeated header. -/
def finishTables : List (List (String × Item)) → List Setting
  | [] => []
  | entries :: rest => .table (finishEntries entries) :: finishTables rest

end

end Item

/-- A change of the table at the end of a path. The change sees how that table came into being.
Tables that are missing on the way are made as `made`; a path of dotted keys does not lead through
tables that have headers. Of repeated tables the last one is meant. -/
def updateAt (made : Origin) (change : Origin → Entries Item → Option (Entries Item)) :
    (path : List String) → Origin → Entries Item → Option (Entries Item)
  | [], origin, entries => change origin entries
  | key :: path, _, entries =>
    match entries.find? key with
    | none => (updateAt made change path made []).map fun inner =>
        entries.insert key (.table made inner)
    | some (.value _) => none
    | some (.table origin inner) =>
      if made == .dotted && origin == .header then none
      else (updateAt made change path origin inner).map fun inner =>
        entries.insert key (.table origin inner)
    | some (.tables all) => do
      let last ← all.getLast?
      let inner ← updateAt made change path .header last
      return entries.insert key (.tables (all.dropLast ++ [inner]))

/-- Give a key a value; `path` leads from the table to the key. -/
def assign (path : List String) (key : String) (value : Setting) (entries : Entries Item) :
    Option (Entries Item) :=
  updateAt .dotted
    (fun origin inner =>
      if (!path.isEmpty && origin != .dotted) || (inner.find? key).isSome then none
      else some (inner.insert key (.value value)))
    path .header entries

/-- Give a key a value in the table that the header `header` has opened. -/
def assignUnder (header path : List String) (key : String) (value : Setting)
    (entries : Entries Item) : Option (Entries Item) :=
  updateAt .implied (fun _ inner => assign path key value inner) header .header entries

/-- Open the table of a header. -/
def openTable (parent : List String) (key : String) (entries : Entries Item) :
    Option (Entries Item) :=
  updateAt .implied
    (fun _ inner =>
      match inner.find? key with
      | none => some (inner.insert key (.table .header []))
      | some (.table .implied items) => some (inner.insert key (.table .header items))
      | some _ => none)
    parent .header entries

/-- Open another table of a repeated header. -/
def openRepeated (parent : List String) (key : String) (entries : Entries Item) :
    Option (Entries Item) :=
  updateAt .implied
    (fun _ inner =>
      match inner.find? key with
      | none => some (inner.insert key (.tables [[]]))
      | some (.tables all) => some (inner.insert key (.tables (all ++ [[]])))
      | some _ => none)
    parent .header entries

end Spintax.Toml
