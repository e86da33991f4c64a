import Spintax.Table
import Spintax.Text.Search
import Spintax.Markers.Basic

/-!
# Placeholder references

A reference is a name between two placeholder markers. A name has at least one character and none
of the marker's own characters. References are read from left to right without overlap, so a marker
that ends one reference does not begin the next. The audit lists the names that cannot be
substituted.
-/

namespace Spintax

/-- The name and the rest of the text, if the characters begin with a reference. -/
def referenceAt? (delimiter cs : List Char) : Option (List Char × List Char) :=
  if delimiter.isPrefixOf cs then
    let inner := cs.drop delimiter.length
    let name := inner.takeWhile fun c => !delimiter.contains c
    let after := inner.drop name.length
    if !name.isEmpty && delimiter.isPrefixOf after then
      some (name, after.drop delimiter.length)
    else
      none
  else
    none

/-- What follows a reference is shorter than what it was found in. -/
theorem length_of_referenceAt? {delimiter cs name rest : List Char}
    (found : referenceAt? delimiter cs = some (name, rest)) : rest.length < cs.length := by
  simp only [referenceAt?] at found
  split at found
  · split at found
    · next good =>
      simp only [Option.some.injEq, Prod.mk.injEq] at found
      obtain ⟨rfl, rfl⟩ := found
      simp only [Bool.and_eq_true, Bool.not_eq_true', List.isEmpty_eq_false_iff] at good
      have inside := List.length_pos_iff.2 good.1
      have fits := (List.takeWhile_prefix
        (l := cs.drop delimiter.length) fun c => !delimiter.contains c).length_le
      simp only [List.length_drop] at fits ⊢
      omega
    · simp at found
  · simp at found

/-- The names of the references among the characters, from left to right, added to those found
before, last one first. -/
def referenceNames (delimiter : List Char) (found : List String) : List Char → List String
  | [] => found.reverse
  | c :: cs =>
    match _found : referenceAt? delimiter (c :: cs) with
    | some (name, rest) => referenceNames delimiter (String.ofList name :: found) rest
    | none => referenceNames delimiter found cs
termination_by cs => cs.length
decreasing_by
  · exact length_of_referenceAt? _found
  · simp

namespace Markers

/-- The names that a template refers to, from left to right, with repetitions. -/
def references (markers : Markers) (template : String) : List String :=
  referenceNames (markers.get .placeholder).toList [] template.toList

/-- Whether a reference to the name can be substituted: it has a value, and the value is free of the
placeholder marker. -/
def usable (markers : Markers) (table : Table) (name : String) : Bool :=
  match table.get? name with
  | some value => !occursIn (markers.get .placeholder) value
  | none => false

/-- The names that a template refers to and that cannot be substituted, each once, in the order of
their first reference. -/
def audit (markers : Markers) (table : Table) (template : String) : List String :=
  (markers.references template).eraseDups.filter fun name => !markers.usable table name

end Markers

end Spintax
