import Mathlib.Data.List.Perm.Subperm
import Spintax.Spinner
import Spintax.Proofs.LastValues

/-!
# Insertion histories of tables

A table is begun empty, with pairs that are collected or with the entries of an ordered map, and pairs
are inserted into it later. However this goes, it is the table that is collected from all its pairs in
their order: every way to begin gives such a table, and every insertion collects one pair more. So what a
table answers can be read off its history.

Two tables are compared without their order: they must be of one size, and each entry of the first must be
found in the second. No name is entered twice, so the second has nothing left over, and the tables agree
just when they give every name the same value. The audit and the validation of a template do nothing with
a table but look up names in it, so they cannot tell tables apart that agree.
-/

namespace Spintax

/-- The audit depends on nothing but the values of the names. -/
theorem Markers.audit_congr {first second : Table} (markers : Markers)
    (hget : ∀ name, first.get? name = second.get? name) (template : String) :
    markers.audit first template = markers.audit second template := by
  have husable : markers.usable first = markers.usable second := by
    funext name
    simp only [usable, hget]
  rw [audit, audit, husable]

/-- A template is validated alike over tables for which the audit is the same. -/
theorem Spinner.validate_congr {first second : Table} {markers : Markers} {template : String}
    (haudit : markers.audit first template = markers.audit second template)
    (checkPlaceholders : Bool) :
    (⟨template, first, markers⟩ : Spinner).validate checkPlaceholders =
      (⟨template, second, markers⟩ : Spinner).validate checkPlaceholders := by
  have hobjection : (⟨template, first, markers⟩ : Spinner).objection? checkPlaceholders =
      (⟨template, second, markers⟩ : Spinner).objection? checkPlaceholders := by
    have hnames : (⟨template, first, markers⟩ : Spinner).audit =
        (⟨template, second, markers⟩ : Spinner).audit := haudit
    rw [objection?, objection?, hnames]
    rfl
  rw [validate, validate, hobjection]

namespace Table

variable {first second : Table}

/-- No entry stands in a table twice. -/
theorem nodup_entries (table : Table) : table.entries.Nodup :=
  List.Nodup.of_map _ table.nodup

/-- Tables hold the same entries just when they give every name the same value. -/
theorem perm_entries_iff :
    first.entries.Perm second.entries ↔ ∀ name, first.get? name = second.get? name := by
  constructor
  · intro hperm name
    exact Entries.find?_eq_of_perm first.nodup hperm name
  · intro hget
    rw [List.perm_ext_iff_of_nodup first.nodup_entries second.nodup_entries]
    intro entry
    have hfind : first.entries.find? entry.1 = second.entries.find? entry.1 := hget entry.1
    rw [← Entries.find?_eq_some_iff first.nodup, ← Entries.find?_eq_some_iff second.nodup, hfind]

/-- Tables agree just when they hold the same entries. -/
theorem agrees_iff_perm : first.agrees second = true ↔ first.entries.Perm second.entries := by
  rw [agrees, Bool.and_eq_true, beq_iff_eq, List.all_eq_true]
  constructor
  · rintro ⟨hsize, hall⟩
    have hsubset : first.entries ⊆ second.entries := fun entry hentry =>
      Entries.mem_of_find? (beq_iff_eq.mp (hall entry hentry))
    -- distinct entries that are all found in a list of the same length leave nothing of it over
    have hsubperm := List.subperm_of_subset first.nodup_entries hsubset
    exact hsubperm.perm_of_length_le (Nat.le_of_eq hsize.symm)
  · intro hperm
    refine ⟨hperm.length_eq, fun entry hentry => ?_⟩
    have hfound : second.get? entry.1 = some entry.2 :=
      (Entries.find?_eq_some_iff second.nodup).mpr (hperm.mem_iff.mp hentry)
    exact beq_iff_eq.mpr hfound

/-- What is asked of a table is answered as its entries say. -/
structure AnswersByEntries (table : Table) : Prop where
  get? : ∀ name value, table.get? name = some value ↔ (name, value) ∈ table.entries
  contains : ∀ name, table.contains name = true ↔ name ∈ table.entries.names
  size : table.size = table.entries.length
  isEmpty : table.isEmpty = true ↔ table.entries = []

/-- Every table answers as its entries say. -/
theorem answersByEntries (table : Table) : table.AnswersByEntries where
  get? _ _ := Entries.find?_eq_some_iff table.nodup
  contains name := by
    rw [contains, Option.isSome_iff_ne_none]
    exact (not_congr Entries.find?_eq_none_iff).trans not_not
  size := rfl
  isEmpty := List.isEmpty_iff

/-- One insertion into a collected table collects one pair more. -/
theorem insert_ofPairs (pairs : List (String × String)) (name value : String) :
    (ofPairs pairs).insert name value = ofPairs (pairs ++ [(name, value)]) :=
  ext (Entries.ofList_concat pairs (name, value)).symm

/-- To collect pairs is to insert them one after another into the empty table. -/
theorem ofPairs_eq_foldl (pairs : List (String × String)) :
    ofPairs pairs = pairs.foldl (fun table pair => table.insert pair.1 pair.2) .empty := by
  induction pairs using List.reverseRecOn with
  | nil => rfl
  | append_singleton pairs pair ih =>
    rw [List.foldl_concat, ← ih]
    exact (insert_ofPairs pairs pair.1 pair.2).symm

/-- How a table is begun. -/
inductive Origin where
  | empty
  | collected (pairs : List (String × String))
  | ordered (entries : Entries String) (distinct : entries.names.Nodup)

namespace Origin

/-- The table that is begun with. -/
def table : Origin → Table
  | .empty => .empty
  | .collected pairs => .ofPairs pairs
  | .ordered entries distinct => ⟨entries, distinct⟩

/-- The pairs that the table is begun with. -/
def pairs : Origin → List (String × String)
  | .empty => []
  | .collected pairs => pairs
  | .ordered entries _ => entries

/-- A table is begun by collecting its first pairs. -/
theorem table_eq_ofPairs (origin : Origin) : origin.table = ofPairs origin.pairs := by
  cases origin with
  | empty => rfl
  | collected pairs => rfl
  | ordered entries distinct => exact (ofPairs_entries ⟨entries, distinct⟩).symm

end Origin

/-- An insertion, which answers the value before or only changes the table. -/
inductive Insertion where
  | getThenInsert (name value : String)
  | insert (name value : String)

namespace Insertion

/-- The pair that is inserted. -/
def pair : Insertion → String × String
  | .getThenInsert name value => (name, value)
  | .insert name value => (name, value)

/-- The table afterwards. -/
def apply : Insertion → Table → Table
  | .getThenInsert name value, table => (table.getThenInsert? name value).2
  | .insert name value, table => table.insert name value

/-- Whether it answers or not, an insertion collects its pair. -/
theorem apply_ofPairs (insertion : Insertion) (pairs : List (String × String)) :
    insertion.apply (ofPairs pairs) = ofPairs (pairs ++ [insertion.pair]) := by
  cases insertion with
  | getThenInsert name value =>
    rw [apply, getThenInsert?_eq]
    exact insert_ofPairs pairs name value
  | insert name value => exact insert_ofPairs pairs name value

/-- Insertions one after another collect their pairs. -/
theorem foldl_apply_ofPairs (insertions : List Insertion) (pairs : List (String × String)) :
    insertions.foldl (fun table insertion => insertion.apply table) (ofPairs pairs) =
      ofPairs (pairs ++ insertions.map pair) := by
  induction insertions generalizing pairs with
  | nil => rw [List.map_nil, List.append_nil, List.foldl_nil]
  | cons insertion rest ih =>
    rw [List.foldl_cons, apply_ofPairs, ih, List.append_assoc, List.map_cons, List.singleton_append]

end Insertion

/-- What has happened to a table: how it was begun, and what was inserted later. -/
structure History where
  origin : Origin
  insertions : List Insertion

namespace History

/-- The table in the end. -/
def table (history : History) : Table :=
  history.insertions.foldl (fun table insertion => insertion.apply table) history.origin.table

/-- All pairs that the table was ever given, in order. -/
def pairs (history : History) : List (String × String) :=
  history.origin.pairs ++ history.insertions.map Insertion.pair

/-- Every history collects its pairs. -/
theorem table_eq_ofPairs (history : History) : history.table = ofPairs history.pairs := by
  rw [table, pairs, Origin.table_eq_ofPairs, Insertion.foldl_apply_ofPairs]

/-- An entry of the table is a last pair of its name. -/
theorem mem_entries_iff (history : History) (name value : String) :
    (name, value) ∈ history.table.entries ↔
      ∃ earlier later, history.pairs = earlier ++ (name, value) :: later ∧
        name ∉ later.map Prod.fst := by
  rw [← Entries.lastValue?_eq_some_iff_append, ← history.table.answersByEntries.get?,
    table_eq_ofPairs, (collectedFrom_ofPairs history.pairs).value]

/-- Each name that was ever given stands in the table once, and no other name. -/
theorem count_names (history : History) (name : String) :
    history.table.entries.names.count name =
      if name ∈ history.pairs.map Prod.fst then 1 else 0 := by
  have hmem : name ∈ history.table.entries.names ↔ name ∈ history.pairs.map Prod.fst := by
    rw [table_eq_ofPairs]
    exact Entries.mem_names_ofList
  rw [history.table.nodup.count]
  exact if_congr hmem rfl rfl

/-- A table is a map in order of insertion, whatever its history.

Names keep the order in which they first came and have their last values. Tables agree just when they
give every name the same value, and then every template is audited and validated alike over both. -/
theorem table_keeps_insertion_order (history : History) :
    history.table.CollectedFrom history.pairs ∧
    (∀ name, history.table.entries.names.count name =
      if name ∈ history.pairs.map Prod.fst then 1 else 0) ∧
    (∀ name value, (name, value) ∈ history.table.entries ↔
      ∃ earlier later, history.pairs = earlier ++ (name, value) :: later ∧
        name ∉ later.map Prod.fst) ∧
    history.table.AnswersByEntries ∧
    (∀ name value, history.table.getThenInsert? name value =
      (history.table.get? name, history.table.insert name value)) ∧
    (∀ name, history.table.get? name = none ↔ name ∉ history.pairs.map Prod.fst) ∧
    (∀ pairs, ofPairs pairs =
      pairs.foldl (fun table pair => table.insert pair.1 pair.2) .empty) ∧
    ∀ other : History,
      (history.table.agrees other.table = true ↔
        ∀ name, history.table.get? name = other.table.get? name) ∧
      (history.table.agrees other.table = true ↔
        history.table.entries.Perm other.table.entries) ∧
      (history.table.agrees other.table = true → ∀ (markers : Markers) template,
        markers.audit history.table template = markers.audit other.table template ∧
        ∀ checkPlaceholders,
          (⟨template, history.table, markers⟩ : Spinner).validate checkPlaceholders =
            (⟨template, other.table, markers⟩ : Spinner).validate checkPlaceholders) := by
  have hcollected : history.table.CollectedFrom history.pairs := by
    rw [table_eq_ofPairs]
    exact collectedFrom_ofPairs history.pairs
  refine ⟨hcollected, history.count_names, history.mem_entries_iff,
    history.table.answersByEntries, history.table.getThenInsert?_eq, fun name => ?_,
    ofPairs_eq_foldl, fun other => ?_⟩
  · rw [hcollected.value, Entries.lastValue?_eq_none_iff]
  · have hagrees : history.table.agrees other.table = true ↔
        ∀ name, history.table.get? name = other.table.get? name :=
      agrees_iff_perm.trans perm_entries_iff
    refine ⟨hagrees, agrees_iff_perm, fun hsame markers template => ?_⟩
    have haudit := markers.audit_congr (hagrees.mp hsame) template
    exact ⟨haudit, Spinner.validate_congr haudit⟩

/-- One table has the name first that the other has last. They agree, and the name of a value with the
placeholder marker in it is audited alike over both. -/
theorem table_keeps_insertion_order_reversed :
    let first : History :=
      ⟨.empty, [.insert "a" "1", .insert "b" "~", .getThenInsert "a" "2"]⟩
    let second : History := ⟨.ordered [("b", "~")] (by decide), [.getThenInsert "a" "2"]⟩
    first.table.entries = [("a", "2"), ("b", "~")] ∧
      second.table.entries = [("b", "~"), ("a", "2")] ∧
      first.table.agrees second.table = true ∧
      Markers.default.audit first.table "~b~~a~~c~" =
        Markers.default.audit second.table "~b~~a~~c~" := by
  intro first second
  obtain ⟨-, -, -, -, -, -, -, hother⟩ := table_keeps_insertion_order first
  obtain ⟨-, -, halike⟩ := hother second
  have hagrees : first.table.agrees second.table = true := by decide
  exact ⟨by decide, by decide, hagrees, (halike hagrees .default "~b~~a~~c~").1⟩

end History

end Table

end Spintax
