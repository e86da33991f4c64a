import Spintax.Structure
import Spintax.Sampling

/-!
# Resolution of groups

A text is resolved in one pass over its tokens, with a stack of the groups that are open. A group
collects its alternatives; when its closing marker arrives one of them is chosen and written to the
group around it, or to the output. So groups are resolved innermost first, in the order of their
closing markers, and every group makes exactly one choice. A separator outside every group is
ordinary text.
-/

namespace Spintax

/-- An open group: where it began, its finished alternatives, the last one first, and the
alternative in progress. -/
structure PendingGroup where
  start : Nat
  finished : List String
  current : String
deriving DecidableEq, Repr

/-- The alternatives of a group in source order. -/
def PendingGroup.alternatives (group : PendingGroup) : List String :=
  (group.current :: group.finished).reverse

/-- A text being resolved: the open groups, innermost first, and the output outside them. -/
structure Draft where
  groups : List PendingGroup := []
  output : String := ""
deriving DecidableEq, Repr

namespace Draft

/-- Write text to the innermost open group, or to the output. -/
def write (draft : Draft) (text : String) : Draft :=
  match draft with
  | ⟨[], output⟩ => ⟨[], output ++ text⟩
  | ⟨⟨start, finished, current⟩ :: outer, output⟩ =>
    ⟨⟨start, finished, current ++ text⟩ :: outer, output⟩

/-- Open a group. -/
def beginGroup (draft : Draft) (start : Nat) : Draft :=
  ⟨⟨start, [], ""⟩ :: draft.groups, draft.output⟩

/-- Begin the next alternative of the innermost group; outside all groups the separator is text. -/
def separate (separator : String) : Draft → Draft
  | ⟨[], output⟩ => ⟨[], output ++ separator⟩
  | ⟨⟨start, finished, current⟩ :: outer, output⟩ =>
    ⟨⟨start, current :: finished, ""⟩ :: outer, output⟩

/-- Close the innermost group, whose closing marker stands at `position`: choose one of its
alternatives and write it to what is around the group. -/
def endGroup (draft : Draft) (position : Nat) : Sampling Draft :=
  match draft with
  | ⟨[], _⟩ => throw (.malformed ⟨.closing, position⟩)
  | ⟨group :: outer, output⟩ => do
    let alternatives := group.alternatives
    let chosen ← Sampling.choose alternatives.length
    Sampling.report (.resolvedGroup group.start alternatives.length chosen)
    pure (write ⟨outer, output⟩ (alternatives.getD chosen ""))

/-- Take in one lexeme. -/
def step (separator : String) (draft : Draft) (lexeme : Lexeme) : Sampling Draft :=
  match lexeme.token with
  | .text chunk => pure (draft.write chunk)
  | .mark .opening => pure (draft.beginGroup lexeme.start)
  | .mark .separator => pure (draft.separate separator)
  | .mark .closing => draft.endGroup lexeme.start

/-- The output, provided that no group is open; else the earliest open group is the fault. -/
def finish (draft : Draft) : Sampling String :=
  match draft.groups.getLast? with
  | some group => throw (.malformed ⟨.opening, group.start⟩)
  | none => pure draft.output

end Draft

/-- Resolve every group of a text. -/
def Markers.resolve (markers : Markers) (text : String) : Sampling String := do
  let draft ← (markers.lexemes text).foldlM (Draft.step (markers.get .separator)) {}
  draft.finish

end Spintax
