import Mathlib.Data.List.Induction
import Mathlib.Data.List.Nodup
import Spintax.Table

/-!
# Last values

Pairs are collected one after another, and a pair replaces the value that an earlier one gave to its
key. So the last value of a key is all that is left of the pairs with that key, and where no key comes
twice the order of the pairs leaves no trace in the values. The key itself stays where it came first.
-/

namespace Spintax

/-- Of a list that is grown at its end, a new element is kept and a known one is passed over. -/
theorem eraseDups_concat {α : Type} [BEq α] [LawfulBEq α] (xs : List α) (x : α) :
    (xs ++ [x]).eraseDups = if x ∈ xs then xs.eraseDups else xs.eraseDups ++ [x] := by
  rw [List.eraseDups_append]
  split
  · next hmem =>
    have hnone : [x].removeAll xs = [] := by simp [List.removeAll, hmem]
    rw [hnone, List.eraseDups_nil, List.append_nil]
  · next hmem =>
    have hlast : [x].removeAll xs = [x] := by simp [List.removeAll, hmem]
    rw [hlast, show [x].eraseDups = [x] from rfl]

namespace Entries

variable {α : Type} {pairs other : List (String × α)} {name key : String} {value : α}

/-- The value of the last pair with the key. -/
def lastValue? (pairs : List (String × α)) (key : String) : Option α :=
  find? key pairs.reverse

/-- The value of the key that was inserted last is the new one. -/
theorem find?_insert (entries : Entries α) :
    (entries.insert name value).find? key = if name = key then some value else entries.find? key := by
  induction entries with
  | nil => simp only [insert, find?]
  | cons entry rest ih =>
    obtain ⟨present, old⟩ := entry
    by_cases hpresent : present = name
    · subst hpresent
      simp only [insert, if_true, find?]
      split <;> rfl
    · simp only [insert, if_neg hpresent, find?, ih]
      by_cases hkey : present = key
      · rw [if_pos hkey, if_pos hkey, if_neg fun hname => hpresent (hkey.trans hname.symm)]
      · rw [if_neg hkey, if_neg hkey]

/-- The pair that comes last decides on its key. -/
theorem lastValue?_concat (pairs : List (String × α)) (pair : String × α) (key : String) :
    lastValue? (pairs ++ [pair]) key = if pair.1 = key then some pair.2 else lastValue? pairs key := by
  rw [lastValue?, List.reverse_concat, find?, lastValue?]

/-- A pair behind others is inserted last. -/
theorem ofList_concat (pairs : List (String × α)) (pair : String × α) :
    ofList (pairs ++ [pair]) = (ofList pairs).insert pair.1 pair.2 :=
  List.foldl_concat ..

/-- Collecting keeps the last value of each key. -/
theorem find?_ofList (pairs : List (String × α)) (key : String) :
    (ofList pairs).find? key = lastValue? pairs key := by
  induction pairs using List.reverseRecOn with
  | nil => rfl
  | append_singleton pairs pair ih =>
    rw [ofList_concat, find?_insert, ih, lastValue?_concat]

/-- Collecting keeps the keys. -/
theorem mem_names_ofList : key ∈ (ofList pairs).names ↔ key ∈ pairs.map Prod.fst := by
  induction pairs using List.reverseRecOn with
  | nil => rfl
  | append_singleton pairs pair ih =>
    rw [ofList_concat, mem_names_insert, ih, List.map_append, List.mem_append, or_comm]
    exact or_congr_right List.mem_singleton.symm

/-- What is there after inserting is what was there, or it is the new entry. -/
theorem mem_insert {entries : Entries α} {entry : String × α}
    (hentry : entry ∈ entries.insert name value) : entry = (name, value) ∨ entry ∈ entries := by
  induction entries with
  | nil => exact .inl (List.mem_singleton.mp hentry)
  | cons first rest ih =>
    rw [insert] at hentry
    split at hentry
    · next hname =>
      rcases List.mem_cons.mp hentry with rfl | hrest
      · exact .inl (by rw [hname])
      · exact .inr (List.mem_cons_of_mem _ hrest)
    · rcases List.mem_cons.mp hentry with rfl | hrest
      · exact .inr List.mem_cons_self
      · exact (ih hrest).imp_right (List.mem_cons_of_mem _)

/-- A new name goes to the end. -/
theorem insert_of_not_mem {entries : Entries α} (hname : name ∉ entries.names) :
    entries.insert name value = entries ++ [(name, value)] := by
  induction entries with
  | nil => rfl
  | cons entry rest ih =>
    have hparts : name ≠ entry.1 ∧ name ∉ names rest := by simpa [names] using hname
    rw [insert, if_neg hparts.1.symm, ih hparts.2]
    rfl

/-- A known name keeps its place. -/
theorem names_insert_of_mem {entries : Entries α} (hname : name ∈ entries.names) :
    (entries.insert name value).names = entries.names := by
  induction entries with
  | nil => exact absurd hname List.not_mem_nil
  | cons entry rest ih =>
    by_cases hentry : entry.1 = name
    · rw [insert, if_pos hentry]
      rfl
    · have hrest : name ∈ names rest := (List.mem_cons.mp hname).resolve_left (Ne.symm hentry)
      rw [insert, if_neg hentry, names, List.map_cons, ← names, ih hrest]
      rfl

/-- The names that are collected come in the order in which they first appear. -/
theorem names_ofList (pairs : List (String × α)) :
    (ofList pairs).names = (pairs.map Prod.fst).eraseDups := by
  induction pairs using List.reverseRecOn with
  | nil => rfl
  | append_singleton pairs pair ih =>
    rw [ofList_concat, List.map_append, List.map_singleton, eraseDups_concat, ← ih]
    split
    · next hname => exact names_insert_of_mem (mem_names_ofList.mpr hname)
    · next hname =>
      rw [insert_of_not_mem (mt mem_names_ofList.mp hname), names, List.map_append]
      rfl

/-- Pairs in which no key comes twice are collected as they are. -/
theorem ofList_eq_self (hnodup : (pairs.map Prod.fst).Nodup) : ofList pairs = pairs := by
  induction pairs using List.reverseRecOn with
  | nil => rfl
  | append_singleton pairs pair ih =>
    rw [List.map_append, List.nodup_append] at hnodup
    obtain ⟨hpairs, -, hdisjoint⟩ := hnodup
    have hnew : pair.1 ∉ names pairs := fun hmem =>
      hdisjoint pair.1 hmem pair.1 List.mem_cons_self rfl
    rw [ofList_concat, ih hpairs, insert_of_not_mem hnew]

/-- Both ways to look up a name find the first entry. -/
theorem lookup_eq_find? (entries : Entries α) (name : String) :
    List.lookup name entries = entries.find? name := by
  induction entries with
  | nil => rfl
  | cons entry entries ih =>
    rw [List.lookup_cons, find?, ih]
    by_cases hname : entry.1 = name
    · simp [hname]
    · have hother : (name == entry.1) = false := beq_eq_false_iff_ne.mpr (Ne.symm hname)
      simp [hname, hother]

/-- Nothing is found under a name just when it is not entered. -/
theorem find?_eq_none_iff {entries : Entries α} :
    entries.find? name = none ↔ name ∉ entries.names := by
  induction entries with
  | nil => simp [find?, names]
  | cons entry rest ih =>
    rw [find?]
    by_cases hname : entry.1 = name
    · simp [hname, names]
    · rw [if_neg hname, ih]
      simp [names, Ne.symm hname]

/-- Of pairs that follow others, the last value beats theirs. -/
theorem lastValue?_append (pairs other : List (String × α)) (key : String) :
    lastValue? (pairs ++ other) key = (lastValue? other key <|> lastValue? pairs key) := by
  induction other using List.reverseRecOn with
  | nil => rw [List.append_nil]; rfl
  | append_singleton other pair ih =>
    rw [← List.append_assoc, lastValue?_concat, lastValue?_concat, ih]
    split <;> rfl

/-- The last value in lists that follow one another is that of the last list that has one. -/
theorem lastValue?_flatten (lists : List (List (String × α))) (key : String) :
    lastValue? lists.flatten key = lists.reverse.findSome? fun pairs => lastValue? pairs key := by
  induction lists using List.reverseRecOn with
  | nil => rfl
  | append_singleton lists pairs ih =>
    rw [List.flatten_concat, lastValue?_append, ih, List.reverse_concat, List.findSome?_cons]
    cases lastValue? pairs key <;> rfl

/-- A key has no last value just when no pair has the key. -/
theorem lastValue?_eq_none_iff : lastValue? pairs key = none ↔ key ∉ pairs.map Prod.fst := by
  induction pairs using List.reverseRecOn with
  | nil => exact iff_of_true rfl List.not_mem_nil
  | append_singleton pairs pair ih =>
    rw [lastValue?_concat, List.map_append, List.mem_append, not_or, ← ih]
    by_cases hkey : pair.1 = key
    · simp [hkey]
    · simp [hkey, Ne.symm hkey]

/-- The last value of a key stands in a pair behind which the key does not come again. -/
theorem lastValue?_eq_some_iff_append :
    lastValue? pairs key = some value ↔
      ∃ earlier later, pairs = earlier ++ (key, value) :: later ∧ key ∉ later.map Prod.fst := by
  constructor
  · intro hlast
    induction pairs using List.reverseRecOn with
    | nil => cases hlast
    | append_singleton pairs pair ih =>
      rw [lastValue?_concat] at hlast
      by_cases hkey : pair.1 = key
      · rw [if_pos hkey] at hlast
        obtain rfl := Option.some.inj hlast
        exact ⟨pairs, [], by rw [← hkey], List.not_mem_nil⟩
      · rw [if_neg hkey] at hlast
        obtain ⟨earlier, later, rfl, hlater⟩ := ih hlast
        refine ⟨earlier, later ++ [pair], List.append_assoc .., ?_⟩
        rw [List.map_append, List.mem_append, not_or]
        exact ⟨hlater, fun hmem => hkey (List.mem_singleton.mp hmem).symm⟩
  · rintro ⟨earlier, later, rfl, hlater⟩
    rw [List.append_cons, lastValue?_append, lastValue?_eq_none_iff.mpr hlater,
      lastValue?_concat, if_pos rfl]
    rfl

/-- If no key comes twice, the last value of a key is its only one. -/
theorem lastValue?_eq_some_iff (hnodup : (pairs.map Prod.fst).Nodup) :
    lastValue? pairs key = some value ↔ (key, value) ∈ pairs := by
  have hnames : names pairs.reverse = (pairs.map Prod.fst).reverse := List.map_reverse
  rw [lastValue?, find?_eq_some_iff (hnames ▸ List.nodup_reverse.mpr hnodup), List.mem_reverse]

/-- If no key comes twice, the last value of a key is the first that is found. -/
theorem lastValue?_eq_find? (hnodup : (pairs.map Prod.fst).Nodup) (key : String) :
    lastValue? pairs key = find? key pairs :=
  Option.ext fun value => by rw [lastValue?_eq_some_iff hnodup, find?_eq_some_iff hnodup]

/-- If no key comes twice, the order of the pairs does not matter to the last values. -/
theorem lastValue?_eq_of_perm (hnodup : (pairs.map Prod.fst).Nodup) (hperm : pairs.Perm other)
    (key : String) : lastValue? pairs key = lastValue? other key := by
  have hother : (other.map Prod.fst).Nodup := (hperm.map Prod.fst).nodup_iff.mp hnodup
  refine Option.ext fun value => ?_
  rw [lastValue?_eq_some_iff hnodup, lastValue?_eq_some_iff hother, hperm.mem_iff]

/-- If no key comes twice, the order of the pairs does not matter to what is found. -/
theorem find?_eq_of_perm (hnodup : (pairs.map Prod.fst).Nodup) (hperm : pairs.Perm other)
    (key : String) : find? key pairs = find? key other := by
  have hother : (other.map Prod.fst).Nodup := (hperm.map Prod.fst).nodup_iff.mp hnodup
  rw [← lastValue?_eq_find? hnodup, ← lastValue?_eq_find? hother, lastValue?_eq_of_perm hnodup hperm]

end Entries

namespace Table

/-- The table has each name of the pairs once, in the order in which the names first appear, with its
last value. -/
structure CollectedFrom (table : Table) (pairs : List (String × String)) : Prop where
  names : table.entries.names = (pairs.map Prod.fst).eraseDups
  value : ∀ name, table.get? name = Entries.lastValue? pairs name

/-- The table of pairs is collected from them. -/
theorem collectedFrom_ofPairs (pairs : List (String × String)) :
    (ofPairs pairs).CollectedFrom pairs where
  names := Entries.names_ofList pairs
  value := Entries.find?_ofList pairs

/-- Pairs in which no name comes twice are the entries of the table that is collected from them. -/
theorem entries_ofPairs {pairs : List (String × String)} (hnodup : (pairs.map Prod.fst).Nodup) :
    (ofPairs pairs).entries = pairs :=
  Entries.ofList_eq_self hnodup

/-- A table is collected from its entries. -/
theorem ofPairs_entries (table : Table) : ofPairs table.entries = table :=
  ext (entries_ofPairs table.nodup)

/-- Pairs collected in two goes are collected at once. -/
theorem insertAll_ofPairs (pairs other : List (String × String)) :
    (ofPairs pairs).insertAll other = ofPairs (pairs ++ other) :=
  ext List.foldl_append.symm

/-- To insert pairs into a table is to collect them behind its entries. -/
theorem insertAll_eq_ofPairs (table : Table) (pairs : List (String × String)) :
    table.insertAll pairs = ofPairs (table.entries ++ pairs) := by
  rw [← insertAll_ofPairs, ofPairs_entries]

/-- The last value among the entries of a table is its only one. -/
theorem lastValue?_entries (table : Table) (name : String) :
    Entries.lastValue? table.entries name = table.get? name :=
  Entries.lastValue?_eq_find? table.nodup name

end Table

end Spintax
