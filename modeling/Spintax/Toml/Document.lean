import Spintax.Toml.Value

/-!
# TOML documents

A text is read line by line: a header opens a table, and the assignments after it belong to that
table. A byte order mark at the start is passed over.
-/

namespace Spintax.Toml

/-- A document in progress: its entries and the header of the table that is open. -/
structure Draft where
  entries : Entries Item := []
  header : List String := []

namespace Draft

/-- Open the table of a header, or another table of a repeated one. -/
def openHeader (draft : Draft) (repeated : Bool) (key : List String) : Option Draft := do
  let parent := key.dropLast
  let name ← key.getLast?
  let entries ← if repeated then openRepeated parent name draft.entries
    else openTable parent name draft.entries
  return ⟨entries, key⟩

/-- Give a key a value in the open table. -/
def assign (draft : Draft) (key : List String) (value : Setting) : Option Draft := do
  let entries ← assignUnder draft.header key.dropLast (← key.getLast?) value draft.entries
  return { draft with entries := entries }

end Draft

/-- Read what stands on a line that is neither blank nor a comment. -/
def line? (draft : Draft) (cs : List Char) : Option (Draft × List Char) :=
  match cs with
  | '[' :: '[' :: inner => do
    let ⟨key, rest, _⟩ ← key? [] inner
    match rest with
    | ']' :: ']' :: rest => return (← draft.openHeader true key, rest)
    | _ => none
  | '[' :: inner => do
    let ⟨key, rest, _⟩ ← key? [] inner
    match rest with
    | ']' :: rest => return (← draft.openHeader false key, rest)
    | _ => none
  | _ => do
    let ⟨(key, value), rest, _⟩ ← assignment? (value? depthLimit) cs
    return (← draft.assign key value, rest)

/-- Read the remaining lines, at most `limit` of them. -/
def lines? : (limit : Nat) → Draft → List Char → Option Draft
  | 0, _, _ => none
  | limit + 1, draft, cs =>
    match skipLines cs with
    | [] => some draft
    | c :: rest => do
      let (draft, behind) ← line? draft (c :: rest)
      lines? limit draft (← endLine? behind)

/-- The entries that a text writes, if it is TOML. -/
def parse? (text : String) : Option (List (String × Setting)) :=
  let cs := match text.toList with
    | '\ufeff' :: cs => cs
    | cs => cs
  (lines? (cs.length + 1) {} cs).map fun draft => Item.finishEntries draft.entries

end Spintax.Toml
