import Spintax.Entries
import Spintax.Number.Binary64
import Spintax.Shape

/-!
# Values of settings

Settings are held as loosely typed values, as configuration files and overrides give them. Reading
one with a type in mind converts generously: truth values, numbers and texts stand for one another
where their meaning is plain.
-/

namespace Spintax

/-- A loosely typed value of a setting. -/
inductive Setting where
  | unit
  | boolean (value : Bool)
  | integer (value : Int)
  | float (value : Binary64)
  | text (value : String)
  | list (items : List Setting)
  | table (entries : List (String × Setting))
deriving Repr, Inhabited

namespace Setting

mutual

/-- Whether two values are the same. -/
def same : Setting → Setting → Bool
  | .unit, .unit => true
  | .boolean first, .boolean second => first == second
  | .integer first, .integer second => first == second
  | .float first, .float second => first == second
  | .text first, .text second => first == second
  | .list first, .list second => sameItems first second
  | .table first, .table second => sameEntries first second
  | _, _ => false

/-- Whether two lists hold the same values. -/
def sameItems : List Setting → List Setting → Bool
  | [], [] => true
  | first :: rest, second :: others => same first second && sameItems rest others
  | _, _ => false

/-- Whether two tables hold the same entries in the same order. -/
def sameEntries : List (String × Setting) → List (String × Setting) → Bool
  | [], [] => true
  | (key, first) :: rest, (other, second) :: others =>
    key == other && same first second && sameEntries rest others
  | _, _ => false

end

mutual

/-- Two values are the same just when they are equal. -/
theorem same_iff : (first second : Setting) → (same first second = true ↔ first = second)
  | .unit, second => by cases second <;> simp [same]
  | .boolean _, second => by cases second <;> simp [same]
  | .integer _, second => by cases second <;> simp [same]
  | .float _, second => by cases second <;> simp [same]
  | .text _, second => by cases second <;> simp [same]
  | .list items, second => by cases second <;> simp [same, sameItems_iff items]
  | .table entries, second => by cases second <;> simp [same, sameEntries_iff entries]

/-- The comparison of lists decides equality. -/
theorem sameItems_iff : (first second : List Setting) →
    (sameItems first second = true ↔ first = second)
  | [], second => by cases second <;> simp [sameItems]
  | first :: rest, second => by
    cases second <;> simp [sameItems, same_iff first, sameItems_iff rest]

/-- The comparison of entries decides equality. -/
theorem sameEntries_iff : (first second : List (String × Setting)) →
    (sameEntries first second = true ↔ first = second)
  | [], second => by cases second <;> simp [sameEntries]
  | (key, first) :: rest, second => by
    cases second with
    | nil => simp [sameEntries]
    | cons entry others =>
      obtain ⟨other, value⟩ := entry
      simp [sameEntries, same_iff first, sameEntries_iff rest]

end

instance : DecidableEq Setting := fun first second =>
  decidable_of_iff (same first second = true) (same_iff first second)

/-- A value as faults of a single setting describe it. -/
def found : Setting → Found
  | .unit => .unit
  | .boolean value => .boolean value
  | .integer value => .wideInteger value
  | .float value => .float value.text
  | .text value => .text value
  | .list _ => .sequence
  | .table _ => .map

/-- A value as faults of a whole record describe it. -/
def foundAsRecord : Setting → Found
  | .integer value => .integer value
  | .float value => .float value.pointedText
  | other => other.found

end Setting

end Spintax
