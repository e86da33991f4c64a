import Spintax.Entries
import Spintax.Fault

/-!
# Placeholder tables

A placeholder table maps names, written without their delimiters, to values. It keeps the order in
which the names were first inserted, and substitution follows that order. Two tables agree when they
give every name the same value, whatever their order.
-/

namespace Spintax

/-- Values by name, each name once, in order of first insertion. -/
structure Table where
  entries : Entries String
  nodup : entries.names.Nodup
deriving DecidableEq, Repr

namespace Table

/-- A table is its entries. -/
theorem ext {first second : Table} (hentries : first.entries = second.entries) : first = second := by
  cases first
  cases second
  cases hentries
  rfl

/-- The table without entries. -/
def empty : Table :=
  ⟨[], List.nodup_nil⟩

instance : Inhabited Table := ⟨empty⟩

/-- The value of a name. -/
def get? (table : Table) (name : String) : Option String :=
  table.entries.find? name

/-- Whether a name has a value. -/
def contains (table : Table) (name : String) : Bool :=
  (table.get? name).isSome

/-- The number of names. -/
def size (table : Table) : Nat :=
  table.entries.length

/-- Whether there are no entries. -/
def isEmpty (table : Table) : Bool :=
  table.entries.isEmpty

/-- Give a name a value: a known name keeps its position, a new one goes to the end. -/
def insert (table : Table) (name value : String) : Table :=
  ⟨table.entries.insert name value, Entries.nodup_names_insert table.nodup⟩

/-- Give a name a value, and answer the one that it had before. -/
def getThenInsert? (table : Table) (name value : String) : Option String × Table :=
  ((table.entries.getThenInsert? name value).1, ⟨(table.entries.getThenInsert? name value).2, by
    rw [Entries.getThenInsert?_eq]
    exact Entries.nodup_names_insert table.nodup⟩)

/-- Insert the pairs one after another. -/
def insertAll (table : Table) (pairs : List (String × String)) : Table :=
  ⟨table.entries.insertAll pairs, Entries.nodup_names_insertAll table.nodup pairs⟩

/-- The table collected from pairs. -/
def ofPairs (pairs : List (String × String)) : Table :=
  empty.insertAll pairs

/-- Whether two tables hold the same names with the same values, in any order. -/
def agrees (first second : Table) : Bool :=
  first.size == second.size &&
    first.entries.all fun entry => second.get? entry.1 == some entry.2

/-- The answer is the value that the name had before, and the table is changed as by `insert`. -/
theorem getThenInsert?_eq (table : Table) (name value : String) :
    table.getThenInsert? name value = (table.get? name, table.insert name value) := by
  have hentries := Entries.getThenInsert?_eq table.entries name value
  have hanswer : (table.getThenInsert? name value).1 = table.get? name := congrArg Prod.fst hentries
  have htable : (table.getThenInsert? name value).2 = table.insert name value :=
    ext (congrArg Prod.snd hentries)
  exact Prod.ext hanswer htable

/-- The pairs of an object's members, or the first member that is no string. -/
def stringMembers : List (String × Json) → Except Refusal (List (String × String))
  | [] => .ok []
  | (name, .string text) :: rest => (stringMembers rest).map ((name, text) :: ·)
  | (name, other) :: _ => .error (.valueNotString name other.kind)

/-- Build from a loosely typed value, which must be an object of strings. -/
def ofJson : Json → Except Refusal Table
  | .object members => (stringMembers members).map ofPairs
  | other => .error (.placeholdersNotObject other.kind)

/-- The table as an object, in table order. -/
def toJson (table : Table) : Json :=
  .object (table.entries.map fun entry => (entry.1, .string entry.2))

end Table

end Spintax
