import Spintax.Json.Basic
import Spintax.Markers.Basic
import Spintax.Shape
import Spintax.Table

/-!
# Decoding of records

The strict way to read markers and tables from JSON. A marker set is an object with exactly its four
members, or an array of its four texts in declaration order. A table is an object of texts. Members
are taken in their order, so the first faulty one is reported; what is missing is reported last.
-/

namespace Spintax

/-- A value as messages about shapes describe it. -/
def Json.found : Json → Found
  | .null => .null
  | .bool value => .boolean value
  | .integer value => .integer value
  | .float value => .float value.briefText
  | .string value => .text value
  | .array _ => .sequence
  | .object _ => .map

/-- The text of a string value. -/
def Json.decodeText : Json → Except ShapeFault String
  | .string value => .ok value
  | other => .error (.wrongType other.found "a string")

namespace MarkerTexts

/-- The texts of the members by role, provided that every name is a role's and every value is a
text. -/
def decodeMembers : List (String × Json) → Except ShapeFault (List (Role × String))
  | [] => .ok []
  | (name, value) :: rest => do
    match Role.ofKey? name with
    | none => throw (.unknownField name (Role.all.map Role.key))
    | some role =>
      let text ← value.decodeText
      return (role, text) :: (← decodeMembers rest)

/-- The specification of texts by role, in which no role may be missing. -/
def ofRoleTexts (texts : List (Role × String)) : Except ShapeFault MarkerTexts := do
  let text (role : Role) : Except ShapeFault String :=
    match texts.lookup role with
    | some text => .ok text
    | none => .error (.missingField role.key)
  return ⟨← text .opening, ← text .closing, ← text .separator, ← text .placeholder⟩

/-- The text at an index of an array of the four texts. -/
def decodeItem (items : List Json) (index : Nat) : Except ShapeFault String :=
  match items[index]? with
  | some item => item.decodeText
  | none => .error (.wrongLength items.length "struct MarkerSpec with 4 elements")

/-- Read the four texts from an object or an array. -/
def decode : Json → Except ShapeFault MarkerTexts
  | .object members => do ofRoleTexts (← decodeMembers members)
  | .array items => do
    let texts : MarkerTexts := ⟨← decodeItem items 0, ← decodeItem items 1, ← decodeItem items 2,
      ← decodeItem items 3⟩
    if items.length > 4 then throw (.wrongLength items.length "fewer elements in array")
    return texts
  | other => .error (.wrongType other.found "struct MarkerSpec")

end MarkerTexts

/-- Read a marker set: its four texts, none of them empty. -/
def Markers.decode (value : Json) : Except ShapeFault Markers := do
  match Markers.ofTexts (← MarkerTexts.decode value) with
  | .ok markers => return markers
  | .error refusal => throw (.refused refusal)

namespace Table

/-- The members of an object of texts. -/
def decodeMembers : List (String × Json) → Except ShapeFault (List (String × String))
  | [] => .ok []
  | (name, value) :: rest => do
    let text ← value.decodeText
    return (name, text) :: (← decodeMembers rest)

/-- Read a table from an object of texts. -/
def decode : Json → Except ShapeFault Table
  | .object members => do return .ofPairs (← decodeMembers members)
  | other => .error (.wrongType other.found "a map")

end Table

end Spintax
