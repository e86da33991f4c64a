import Spintax.Entries
import Spintax.Fault

/-!
# Marker sets

A marker set is four texts, none of them empty. It is built from four texts, from key-value pairs,
or from an object; each way reports the first fault in a fixed order. The non-emptiness is part of
the type, because a scan makes progress only over markers that have characters.
-/

namespace Spintax

/-- Four marker texts, not yet checked. -/
structure MarkerTexts where
  opening : String := "\x7b"
  closing : String := "\x7d"
  separator : String := "|"
  placeholder : String := "~"
deriving DecidableEq, Repr

namespace MarkerTexts

/-- The text of a role. -/
def get (texts : MarkerTexts) : Role → String
  | .opening => texts.opening
  | .closing => texts.closing
  | .separator => texts.separator
  | .placeholder => texts.placeholder

/-- The four texts that a choice for each role makes. -/
def ofRoles (text : Role → String) : MarkerTexts :=
  ⟨text .opening, text .closing, text .separator, text .placeholder⟩

/-- The four texts in declaration order. -/
def toList (texts : MarkerTexts) : List String :=
  Role.all.map texts.get

/-- The first role, in declaration order, whose text is empty. -/
def firstEmpty? (texts : MarkerTexts) : Option Role :=
  Role.all.find? (fun role => texts.get role == "")

/-- Texts that are given role by role have for each role the text given. -/
theorem get_ofRoles (text : Role → String) (role : Role) : (ofRoles text).get role = text role := by
  cases role <;> rfl

/-- The texts of all roles make the texts they were taken from. -/
theorem ofRoles_get (texts : MarkerTexts) : ofRoles texts.get = texts := rfl

/-- There is no first empty text just when no text is empty. -/
theorem firstEmpty?_eq_none_iff {texts : MarkerTexts} :
    texts.firstEmpty? = none ↔ ∀ role, texts.get role ≠ "" := by
  simp only [firstEmpty?, List.find?_eq_none, beq_iff_eq]
  exact ⟨fun h role => h role (Role.mem_all role), fun h role _ => h role⟩

end MarkerTexts

/-- A checked marker set: no marker is empty. -/
structure Markers where
  texts : MarkerTexts
  nonempty : ∀ role, texts.get role ≠ ""

namespace Markers

/-- Markers with the same texts are the same. -/
theorem ext {first second : Markers} (same : first.texts = second.texts) : first = second := by
  cases first; cases second; cases same; rfl

instance : DecidableEq Markers := fun first second =>
  if same : first.texts = second.texts then
    .isTrue (ext same)
  else
    .isFalse fun equal => same (congrArg Markers.texts equal)

/-- The default markers: braces, a bar and a tilde. -/
protected def default : Markers where
  texts := {}
  nonempty := fun role => by cases role <;> decide

instance : Inhabited Markers := ⟨Markers.default⟩

/-- The text of a role. -/
def get (markers : Markers) (role : Role) : String :=
  markers.texts.get role

/-- No marker is empty. -/
theorem get_ne_empty (markers : Markers) (role : Role) : markers.get role ≠ "" :=
  markers.nonempty role

/-- The marker set of four texts; the first empty marker in declaration order is the fault. -/
def ofTexts (texts : MarkerTexts) : Except Refusal Markers :=
  match empty : texts.firstEmpty? with
  | some role => .error (.emptyMarker role)
  | none => .ok ⟨texts, MarkerTexts.firstEmpty?_eq_none_iff.1 empty⟩

/-- Build from pairs of key and text, of which the last for a key counts. The faults, in order:
keys that are no role's (sorted), roles without a key, empty markers. -/
def ofPairs (pairs : List (String × String)) : Except Refusal Markers :=
  let collected := Entries.ofList pairs
  let unknown := collected.names.filter (fun key => (Role.ofKey? key).isNone)
  let missing := Role.all.filter (fun role => (collected.find? role.key).isNone)
  if unknown ≠ [] then
    .error (.unknownMarkers (unknown.mergeSort (fun a b => decide (a ≤ b))))
  else if missing ≠ [] then
    .error (.missingMarkers missing)
  else
    ofTexts (.ofRoles fun role => (collected.find? role.key).getD "")

/-- The pairs of an object's members, or the first member that is no string. -/
def stringMembers : List (String × Json) → Except Refusal (List (String × String))
  | [] => .ok []
  | (key, .string text) :: rest => (stringMembers rest).map ((key, text) :: ·)
  | (key, other) :: _ => .error (.markerNotString key other.kind)

/-- Build from a loosely typed value, which must be an object of four strings. -/
def ofJson : Json → Except Refusal Markers
  | .object members => (stringMembers members).bind ofPairs
  | other => .error (.markersNotObject other.kind)

/-- The delimited form of a placeholder name. -/
def reference (markers : Markers) (name : String) : String :=
  markers.get .placeholder ++ name ++ markers.get .placeholder

/-- The marker set as an object with the four keys in declaration order. -/
def toJson (markers : Markers) : Json :=
  .object (Role.all.map fun role => (role.key, .string (markers.get role)))

end Markers

end Spintax
