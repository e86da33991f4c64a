/-!
# Named entries in order of first appearance

A list of name-value pairs used as a map. Inserting a name that is present replaces its value where
it stands; a new name goes to the end. So the order of the names is the order in which each was
first inserted, and the value is always the last one.
-/

namespace Spintax

/-- Name-value pairs in order. -/
abbrev Entries (α : Type) := List (String × α)

namespace Entries

variable {α : Type}

/-- The names, in order. -/
def names (entries : Entries α) : List String :=
  entries.map Prod.fst

/-- The value of the first entry of that name. -/
def find? (name : String) : Entries α → Option α
  | [] => none
  | (key, value) :: rest => if key = name then some value else find? name rest

/-- Replace the value of a name where it stands, or add the name at the end. -/
def insert (name : String) (value : α) : Entries α → Entries α
  | [] => [(name, value)]
  | (key, old) :: rest =>
    if key = name then (key, value) :: rest else (key, old) :: insert name value rest

/-- Insert, and find what the name had before. -/
def getThenInsert? (name : String) (value : α) : Entries α → Option α × Entries α
  | [] => (none, [(name, value)])
  | (key, old) :: rest =>
    if key = name then (some old, (key, value) :: rest)
    else
      let (found, inserted) := getThenInsert? name value rest
      (found, (key, old) :: inserted)

/-- Insert the pairs one after another. -/
def insertAll (entries : Entries α) (pairs : List (String × α)) : Entries α :=
  pairs.foldl (fun collected pair => collected.insert pair.1 pair.2) entries

/-- Collect the pairs: each name once, where it first appears, with its last value. -/
def ofList (pairs : List (String × α)) : Entries α :=
  insertAll [] pairs

/-- The value before is the one that is found, and the entries afterwards are those of an insertion. -/
theorem getThenInsert?_eq (entries : Entries α) (name : String) (value : α) :
    entries.getThenInsert? name value = (entries.find? name, entries.insert name value) := by
  induction entries with
  | nil => rfl
  | cons entry rest ih =>
    obtain ⟨key, old⟩ := entry
    by_cases h : key = name
    · rw [getThenInsert?, find?, insert, if_pos h, if_pos h, if_pos h]
    · rw [getThenInsert?, find?, insert, if_neg h, if_neg h, if_neg h, ih]

/-- The names after an insertion are the inserted one and those from before. -/
theorem mem_names_insert {name key : String} {value : α} {entries : Entries α} :
    key ∈ (entries.insert name value).names ↔ key = name ∨ key ∈ entries.names := by
  induction entries with
  | nil => simp [insert, names]
  | cons entry rest ih =>
    obtain ⟨other, old⟩ := entry
    by_cases h : other = name
    · simp [insert, names, h]
    · simp only [insert, names, h, if_false, List.map_cons, List.mem_cons] at ih ⊢
      rw [ih]
      exact or_left_comm

/-- Inserting keeps the names distinct. -/
theorem nodup_names_insert {name : String} {value : α} {entries : Entries α}
    (distinct : entries.names.Nodup) : (entries.insert name value).names.Nodup := by
  induction entries with
  | nil => simp [insert, names]
  | cons entry rest ih =>
    obtain ⟨other, old⟩ := entry
    by_cases h : other = name
    · simpa [insert, names, h] using distinct
    · have parts := List.nodup_cons.1 distinct
      have step : (insert name value ((other, old) :: rest)).names =
          other :: (insert name value rest).names := by
        simp [insert, names, h]
      rw [step, List.nodup_cons, mem_names_insert]
      exact ⟨fun either => either.elim h parts.1, ih parts.2⟩

/-- Inserting any number of pairs keeps the names distinct. -/
theorem nodup_names_insertAll {entries : Entries α} (distinct : entries.names.Nodup)
    (pairs : List (String × α)) : (entries.insertAll pairs).names.Nodup := by
  induction pairs generalizing entries with
  | nil => exact distinct
  | cons pair rest ih => exact ih (nodup_names_insert distinct)

/-- Collected names are distinct. -/
theorem nodup_names_ofList (pairs : List (String × α)) : (ofList pairs).names.Nodup :=
  @nodup_names_insertAll α [] List.nodup_nil pairs

/-- A value that is found stands among the entries with its name. -/
theorem mem_of_find? {name : String} {value : α} {entries : Entries α}
    (found : entries.find? name = some value) : (name, value) ∈ entries := by
  induction entries with
  | nil => cases found
  | cons entry rest ih =>
    obtain ⟨key, old⟩ := entry
    rw [find?] at found
    split at found
    · next same =>
      obtain rfl := Option.some.inj found
      exact same ▸ List.mem_cons_self
    · exact List.mem_cons_of_mem _ (ih found)

/-- A name whose value is found is among the names. -/
theorem mem_names_of_find? {name : String} {value : α} {entries : Entries α}
    (found : entries.find? name = some value) : name ∈ entries.names :=
  List.mem_map_of_mem (mem_of_find? found)

/-- If the names are distinct, a value is found just when it is entered under the name. -/
theorem find?_eq_some_iff {name : String} {value : α} {entries : Entries α}
    (distinct : entries.names.Nodup) :
    entries.find? name = some value ↔ (name, value) ∈ entries := by
  refine ⟨mem_of_find?, fun entered => ?_⟩
  induction entries with
  | nil => cases entered
  | cons entry rest ih =>
    obtain ⟨key, old⟩ := entry
    have parts := List.nodup_cons.1 distinct
    rcases List.mem_cons.1 entered with same | later
    · obtain ⟨rfl, rfl⟩ := Prod.mk.inj same
      rw [find?, if_pos rfl]
    · have named : name ∈ Entries.names rest := List.mem_map_of_mem later
      have other : key ≠ name := fun same => parts.1 (same ▸ named)
      rw [find?, if_neg other, ih parts.2 later]

/-- The entries of some names give each of these its value. -/
theorem find?_filter {name : String} {kept : List String} (keeps : name ∈ kept)
    (entries : Entries α) :
    Entries.find? name (entries.filter fun entry => entry.1 ∈ kept) = entries.find? name := by
  induction entries with
  | nil => rfl
  | cons entry rest ih =>
    obtain ⟨key, value⟩ := entry
    by_cases h : key ∈ kept
    · rw [List.filter_cons_of_pos (by simpa using h), find?, find?, ih]
    · have other : key ≠ name := fun same => h (same ▸ keeps)
      rw [List.filter_cons_of_neg (by simpa using h), find?, if_neg other, ih]

end Entries

end Spintax
