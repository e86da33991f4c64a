/-!
# The roles of markers

A template is written with four markers. Three delimit groups and their alternatives; the fourth
stands on both sides of a placeholder reference.
-/

namespace Spintax

/-- What a marker is for, in declaration order. -/
inductive Role where
  | opening | closing | separator | placeholder
deriving DecidableEq, Repr

namespace Role

/-- The four roles in declaration order, which is the order in which faults are looked for. -/
def all : List Role :=
  [.opening, .closing, .separator, .placeholder]

/-- The key of a role in documents and configuration files. -/
def key : Role → String
  | .opening => "open"
  | .closing => "close"
  | .separator => "separator"
  | .placeholder => "placeholder"

/-- The role of a key. -/
def ofKey? (text : String) : Option Role :=
  all.find? (fun role => role.key == text)

/-- The list of roles is complete. -/
theorem mem_all (role : Role) : role ∈ all := by
  cases role <;> decide

/-- A role is found by its key. -/
theorem ofKey?_key (role : Role) : ofKey? role.key = some role := by
  cases role <;> rfl

/-- Only the four keys name a role. -/
theorem eq_key_of_ofKey? {text : String} {role : Role} (found : ofKey? text = some role) :
    text = role.key := by
  have := List.find?_some found
  exact (beq_iff_eq.1 this).symm

end Role

end Spintax
