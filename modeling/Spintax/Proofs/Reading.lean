import Mathlib.Data.List.Infix
import Mathlib.Data.List.TakeWhile
import Spintax.Proofs.Occurrences
import Spintax.Reference

/-!
# Reading references with a state

When the placeholder marker is one character, references can be read character by character. The
state is what has been read since the delimiter that may begin a reference, or nothing outside every
reference. A delimiter ends the reference if there is a name, and else it begins one anew. So the
names of two texts side by side are those of the first, and those of the second read from the state
that the first leaves behind.
-/

namespace Spintax

/-- What is found at a place is a name without any character of the delimiter, between two
delimiters. -/
theorem referenceAt?_eq_some_iff {delimiter cs name rest : List Char} (hne : delimiter ≠ []) :
    referenceAt? delimiter cs = some (name, rest) ↔
      name ≠ [] ∧ (∀ c ∈ name, c ∉ delimiter) ∧ cs = delimiter ++ (name ++ (delimiter ++ rest)) := by
  constructor
  · intro hfound
    simp only [referenceAt?] at hfound
    split at hfound
    · rename_i hbegins
      split at hfound
      · rename_i hends
        obtain ⟨rfl, rfl⟩ := Prod.mk.inj (Option.some.inj hfound)
        rw [Bool.and_eq_true, Bool.not_eq_true', List.isEmpty_eq_false_iff,
          List.isPrefixOf_iff_prefix, List.prefix_iff_eq_append] at hends
        rw [List.isPrefixOf_iff_prefix, List.prefix_iff_eq_append] at hbegins
        refine ⟨hends.1, fun c hmem => by simpa using List.mem_takeWhile_imp hmem, ?_⟩
        rw [hends.2, List.prefix_iff_eq_append.mp (List.takeWhile_prefix _), hbegins]
      · cases hfound
    · cases hfound
  · rintro ⟨hname, houtside, rfl⟩
    obtain ⟨d, ds, rfl⟩ := List.exists_cons_of_ne_nil hne
    have hinner : (name ++ (d :: ds ++ rest)).takeWhile (fun c => !(d :: ds).contains c) = name := by
      rw [List.takeWhile_append_of_pos (by simpa using houtside), List.cons_append,
        List.takeWhile_cons_of_neg (by simp), List.append_nil]
    have hbegins (after : List Char) : (d :: ds).isPrefixOf (d :: ds ++ after) = true :=
      List.isPrefixOf_iff_prefix.mpr (List.prefix_append _ after)
    simp only [referenceAt?]
    rw [if_pos (hbegins _), List.drop_left, hinner, List.drop_left, hbegins, List.drop_left]
    simp [hname]

/-- Where a reference is found, its name is noted and reading goes on behind it. -/
theorem referenceNames_of_some {delimiter cs name rest : List Char} {found : List String}
    (hfound : referenceAt? delimiter cs = some (name, rest)) :
    referenceNames delimiter found cs =
      referenceNames delimiter (String.ofList name :: found) rest := by
  cases cs with
  | nil => simp [referenceAt?] at hfound
  | cons c cs =>
    rw [referenceNames]
    split
    · rename_i name' rest' hfound'
      obtain ⟨rfl, rfl⟩ := Prod.mk.inj (Option.some.inj (hfound.symm.trans hfound'))
      rfl
    · rename_i hnone
      rw [hfound] at hnone
      cases hnone

/-- Where no reference is found, reading goes on at the next character. -/
theorem referenceNames_of_none {delimiter cs : List Char} {c : Char} {found : List String}
    (hnone : referenceAt? delimiter (c :: cs) = none) :
    referenceNames delimiter found (c :: cs) = referenceNames delimiter found cs := by
  rw [referenceNames]
  split
  · rename_i name rest hfound
    rw [hfound] at hnone
    cases hnone
  · rfl

/-- The state behind a character: what has been read since the delimiter that may begin a reference,
if there is one. -/
def readStep (p : Char) (state : Option (List Char)) (c : Char) : Option (List Char) :=
  match state with
  | none => if c = p then some [] else none
  | some [] => if c = p then some [] else some [c]
  | some (first :: name) => if c = p then none else some (first :: name ++ [c])

/-- The names of the references that end among the characters. -/
def namesFrom (p : Char) : Option (List Char) → List Char → List (List Char)
  | _, [] => []
  | state, c :: cs =>
    let later := namesFrom p (readStep p state c) cs
    match state with
    | some (first :: name) => if c = p then (first :: name) :: later else later
    | _ => later

section

variable {p : Char} {state : Option (List Char)} {run cs : List Char}

/-- The names read in two parts are those of the first and then those of the second, read from where the
first ends. -/
theorem namesFrom_append (state : Option (List Char)) (left right : List Char) :
    namesFrom p state (left ++ right) =
      namesFrom p state left ++ namesFrom p (left.foldl (readStep p) state) right := by
  induction left generalizing state with
  | nil => rfl
  | cons c left ih =>
    rw [List.cons_append, List.foldl_cons]
    rcases state with _ | _ | ⟨first, name⟩
    · exact ih _
    · exact ih _
    · by_cases hc : c = p
      · simp only [namesFrom, if_pos hc, ih, List.cons_append]
      · simp only [namesFrom, if_neg hc, ih]

/-- Characters that are no delimiters are added to what has been read. -/
theorem foldl_readStep_of_not_mem (hfree : p ∉ run) (state : Option (List Char)) :
    run.foldl (readStep p) state = state.map (· ++ run) := by
  induction run generalizing state with
  | nil => cases state <;> simp
  | cons c run ih =>
    obtain ⟨hc, hrun⟩ := not_or.mp (mt List.mem_cons.mpr hfree)
    rw [List.foldl_cons, ih hrun]
    rcases state with _ | _ | ⟨first, name⟩ <;> simp [readStep, Ne.symm hc]

/-- No reference ends where there is no delimiter. -/
theorem namesFrom_of_not_mem (hfree : p ∉ cs) (state : Option (List Char)) :
    namesFrom p state cs = [] := by
  induction cs generalizing state with
  | nil => rfl
  | cons c cs ih =>
    obtain ⟨hc, hcs⟩ := not_or.mp (mt List.mem_cons.mpr hfree)
    rcases state with _ | _ | ⟨first, name⟩ <;> simp [namesFrom, Ne.symm hc, ih hcs]

/-- Outside every reference, characters that are no delimiters are passed over. -/
theorem namesFrom_none_append (hfree : p ∉ run) (cs : List Char) :
    namesFrom p none (run ++ cs) = namesFrom p none cs := by
  rw [namesFrom_append, namesFrom_of_not_mem hfree, foldl_readStep_of_not_mem hfree, List.nil_append,
    Option.map_none]

/-- A name that has been begun is completed before the next delimiter. -/
theorem namesFrom_some_append {begun : List Char} (hfree : p ∉ run) (hne : begun ++ run ≠ [])
    (cs : List Char) :
    namesFrom p (some begun) (run ++ p :: cs) = (begun ++ run) :: namesFrom p none cs := by
  rw [namesFrom_append, namesFrom_of_not_mem hfree, foldl_readStep_of_not_mem hfree, List.nil_append,
    Option.map_some]
  obtain ⟨first, name, heq⟩ := List.exists_cons_of_ne_nil hne
  rw [heq]
  simp [namesFrom, readStep]

/-- A reference is read where it stands. -/
theorem namesFrom_delimited {name : List Char} (hname : name ≠ []) (hfree : p ∉ name)
    (cs : List Char) :
    namesFrom p none (Text.delimited p name ++ cs) = name :: namesFrom p none cs := by
  have heq : Text.delimited p name ++ cs = p :: (name ++ p :: cs) := by simp [Text.delimited]
  have hread : namesFrom p (some []) (name ++ p :: cs) = name :: namesFrom p none cs :=
    namesFrom_some_append hfree (List.append_ne_nil_of_right_ne_nil [] hname) cs
  rw [heq]
  simpa [namesFrom, readStep] using hread

/-- The names that are found from place to place are those that are read with a state. -/
theorem referenceNames_eq_append (found : List String) (cs : List Char) :
    referenceNames [p] found cs = found.reverse ++ (namesFrom p none cs).map String.ofList := by
  induction found, cs using referenceNames.induct [p] with
  | case1 found => rw [referenceNames, namesFrom, List.map_nil, List.append_nil]
  | case2 found c cs name rest hfound ih =>
    obtain ⟨hname, houtside, heq⟩ := (referenceAt?_eq_some_iff (by simp)).mp hfound
    have hfree : p ∉ name := fun hmem => houtside p hmem (List.mem_singleton.mpr rfl)
    have hwhole : c :: cs = Text.delimited p name ++ rest := by rw [heq]; simp [Text.delimited]
    rw [referenceNames_of_some hfound, ih, hwhole, namesFrom_delimited hname hfree]
    simp
  | case3 found c cs hnone ih =>
    rw [referenceNames_of_none hnone, ih]
    congr 2
    -- A delimiter that begins no reference has another one right behind it, or none at all.
    by_cases hc : c = p
    · subst hc
      by_cases hmem : c ∈ cs
      · obtain ⟨name, rest, rfl, hfree⟩ := List.eq_append_cons_of_mem hmem
        by_cases hname : name = []
        · simp [hname, namesFrom, readStep]
        · have hfound : referenceAt? [c] (c :: (name ++ c :: rest)) = some (name, rest) := by
            apply (referenceAt?_eq_some_iff (by simp)).mpr
            refine ⟨hname, fun d hd => ?_, rfl⟩
            rw [List.mem_singleton]
            rintro rfl
            exact hfree hd
          rw [hfound] at hnone
          cases hnone
      · rw [namesFrom_of_not_mem hmem]
        exact (namesFrom_of_not_mem hmem _).symm
    · have hskip : p ∉ [c] := by simpa using Ne.symm hc
      exact (namesFrom_none_append hskip cs).symm

end

namespace Markers

variable {markers : Markers} {table : Table} {text : String} {p : Char}

/-- The names that a text refers to are read with a state. -/
theorem references_eq_map (hplaceholder : (markers.get .placeholder).toList = [p]) :
    markers.references text = (namesFrom p none text.toList).map String.ofList := by
  rw [references, hplaceholder, referenceNames_eq_append]
  rfl

/-- The audit finds no fault just when every name that is referred to can be substituted. -/
theorem audit_eq_nil_iff :
    markers.audit table text = [] ↔
      ∀ name ∈ markers.references text, markers.usable table name = true := by
  simp [audit, List.filter_eq_nil_iff, List.mem_eraseDups]

/-- A name that can be substituted has a value, and this is free of the placeholder marker. -/
theorem exists_value_of_usable {name : String} (husable : markers.usable table name = true) :
    ∃ value, table.get? name = some value ∧ occursIn (markers.get .placeholder) value = false := by
  rw [usable] at husable
  cases hvalue : table.get? name with
  | none => simp [hvalue] at husable
  | some value => exact ⟨value, rfl, by simpa [hvalue] using husable⟩

end Markers

end Spintax
