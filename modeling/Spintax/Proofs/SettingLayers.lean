import Spintax.Proofs.MarkerInput
import Spintax.Settings.Layers

/-!
# Layers of settings

A tree of settings is followed through what is laid over it. It has two tables, one for the markers and
one for the options, and under every name the value that was set last. A file that sets some of the
settings adds to them one by one, whether it has them in a table or under a path, since a table is merged
key by key; the text of the defaults is such a file, laid over a tree that is empty. An override adds one
setting. So the values are the last ones of a list of pairs: the defaults, the files in their order, and
then the overrides. In which order the entries of one file are gone through does not matter, as long as
the file sets no option twice, and neither does it for the overrides, of which there is one for a path.

Calls that add a file and calls that override a setting each keep a list of their own. That is why only
the order among the files and the order among the overrides matter.
-/

namespace Spintax

/-- The two tables that settings are held in. -/
inductive SettingPart where
  | markers | spin
deriving DecidableEq

/-- The settings that are known: the text of each marker, and the options. -/
inductive SettingName where
  | marker (role : Role)
  | substitute | checkPlaceholders | strict | count
deriving DecidableEq

/-- The key of a table. -/
def SettingPart.key : SettingPart → String
  | .markers => "markers"
  | .spin => "spin"

namespace SettingName

/-- The table that a setting is held in. -/
def part : SettingName → SettingPart
  | .marker _ => .markers
  | _ => .spin

/-- The key of a setting in its table. -/
def key : SettingName → String
  | .marker role => role.key
  | .substitute => "substitute"
  | .checkPlaceholders => "check_placeholders"
  | .strict => "strict"
  | .count => "count"

/-- The path of a setting: the key of its table, a point and its own key. -/
def path (name : SettingName) : String :=
  name.part.key ++ "." ++ name.key

/-- A value has the type of a setting. -/
def Fits : SettingName → Setting → Prop
  | .marker _, value => ∃ text, value = .text text
  | .count, value => ∃ count : UInt64, value = .integer count.toNat
  | _, value => ∃ flag, value = .boolean flag

/-- All names, table by table. -/
def all : List SettingName :=
  Role.all.map .marker ++ [.substitute, .checkPlaceholders, .strict, .count]

/-- A setting as a member of its table. -/
def member (pair : SettingName × Setting) : String × Setting :=
  (pair.1.key, pair.2)

/-- A setting under its path. -/
def pathed (pair : SettingName × Setting) : String × Setting :=
  (pair.1.path, pair.2)

/-- The place of a setting, which its path names. -/
def place (name : SettingName) : SettingPath :=
  .child (.key name.part.key) name.key

/-- A setting at its place. -/
def placed (pair : SettingName × Setting) : SettingPath × Setting :=
  (pair.1.place, pair.2)

end SettingName

/-- The value of a setting. -/
def Settings.get (settings : Settings) : SettingName → Setting
  | .marker role => .text (settings.markers.get role)
  | .substitute => .boolean settings.spin.substitute
  | .checkPlaceholders => .boolean settings.spin.checkPlaceholders
  | .strict => .boolean settings.spin.strict
  | .count => .integer settings.spin.count.toNat

/-- Every setting has a value of its type. -/
theorem Settings.fits_get (settings : Settings) (name : SettingName) :
    name.Fits (settings.get name) := by
  cases name <;> exact ⟨_, rfl⟩

/-- Settings with the same values are the same. -/
theorem Settings.ext_get {first second : Settings}
    (hget : ∀ name, first.get name = second.get name) : first = second := by
  obtain ⟨⟨_, _, _, _⟩, _, _, _, _⟩ := first
  obtain ⟨⟨_, _, _, _⟩, _, _, _, _⟩ := second
  have hopening := hget (.marker .opening)
  have hclosing := hget (.marker .closing)
  have hseparator := hget (.marker .separator)
  have hplaceholder := hget (.marker .placeholder)
  have hsubstitute := hget .substitute
  have hcheck := hget .checkPlaceholders
  have hstrict := hget .strict
  have hcount := hget .count
  simp only [get, MarkerTexts.get, Setting.text.injEq, Setting.boolean.injEq, Setting.integer.injEq,
    Int.natCast_inj, UInt64.toNat_inj] at *
  simp only [*]

namespace SettingPart

/-- The key of a part is in lower case. -/
theorem lowercase_key (part : SettingPart) : Text.lowercase part.key = part.key := by
  cases part <;> decide +kernel

/-- The key of a part is read as a path of one key. -/
theorem parse?_key (part : SettingPart) : SettingPath.parse? part.key = some (.key part.key) := by
  cases part <;> decide +kernel

/-- No two parts have the same key. -/
theorem key_injective : Function.Injective key := by
  intro first second hkey
  cases first <;> cases second <;> first | rfl | exact absurd hkey (by decide)

end SettingPart

namespace SettingName

/-- The key of a setting is in lower case. -/
theorem lowercase_key (name : SettingName) : Text.lowercase name.key = name.key := by
  rcases name with (_ | _ | _ | _) | _ | _ | _ | _ <;> decide +kernel

/-- The path of a setting is read as its place. -/
theorem parse?_path (name : SettingName) : SettingPath.parse? name.path = some name.place := by
  rcases name with (_ | _ | _ | _) | _ | _ | _ | _ <;> decide +kernel

/-- The list of settings is complete. -/
theorem mem_all (name : SettingName) : name ∈ all := by
  rcases name with (_ | _ | _ | _) | _ | _ | _ | _ <;> decide

/-- No two settings have the same key. -/
theorem key_injective : Function.Injective key := by
  have hinjective : ∀ first ∈ all, ∀ second ∈ all, first.key = second.key → first = second := by
    decide
  exact fun first second => hinjective first first.mem_all second second.mem_all

/-- No two settings have the same place. -/
theorem place_injective : Function.Injective place :=
  fun _ _ hplace => key_injective (SettingPath.child.inj hplace).2

/-- A path is read back, so no two settings have the same one. -/
theorem path_injective : Function.Injective path := by
  intro first second hpath
  have hread := parse?_path first
  rw [hpath, parse?_path] at hread
  exact place_injective (Option.some.inj hread).symm

end SettingName

open Entries (lastValue? lastValue?_concat)

variable {part : SettingPart} {name : SettingName} {value : Setting}
  {items : Entries Setting} {pairs : List (String × Setting)}

/-- A table has the last values of the settings that are held in it, and nothing else. -/
structure SettingPart.Holds (part : SettingPart) (items : Entries Setting)
    (pairs : List (String × Setting)) : Prop where
  known : ∀ item ∈ items, ∃ name : SettingName, name.part = part ∧ item.1 = name.key ∧ name.Fits item.2
  value : ∀ name : SettingName, name.part = part →
    items.find? name.key = lastValue? pairs name.path

namespace SettingPart.Holds

/-- A setting of the table is set. -/
theorem insert (hholds : part.Holds items pairs) (hpart : name.part = part) (hfits : name.Fits value) :
    part.Holds (items.insert name.key value) (pairs ++ [(name.path, value)]) where
  known := by
    intro item hitem
    rcases Entries.mem_insert hitem with rfl | hold
    · exact ⟨name, hpart, rfl, hfits⟩
    · exact hholds.known item hold
  value := by
    intro other hother
    rw [Entries.find?_insert, lastValue?_concat, hholds.value other hother]
    simp only [SettingName.key_injective.eq_iff, SettingName.path_injective.eq_iff]

/-- A setting of the other table is set. -/
theorem skip (hholds : part.Holds items pairs) (hpart : name.part ≠ part) (value : Setting) :
    part.Holds items (pairs ++ [(name.path, value)]) where
  known := hholds.known
  value := by
    intro other hother
    rw [lastValue?_concat, if_neg, hholds.value other hother]
    intro hpath
    exact hpart (SettingName.path_injective hpath ▸ hother)

/-- Other pairs with the same last values are as good. -/
theorem congr (hholds : part.Holds items pairs) {other : List (String × Setting)}
    (hsame : ∀ key, lastValue? other key = lastValue? pairs key) : part.Holds items other where
  known := hholds.known
  value := by
    intro name hpart
    rw [hholds.value name hpart, hsame]

end SettingPart.Holds

/-- A list in another order than the images of some items is that of their images in another order. -/
theorem exists_eq_map_of_perm {α β : Type} {f : α → β} {images : List β} {items : List α}
    (hperm : images.Perm (items.map f)) : ∃ other : List α, images = other.map f ∧ other.Perm items := by
  have hcomp := congrFun (congrFun (List.eq_map_comp_perm f) images) items
  exact hcomp.mpr hperm

section Laying

variable {root : Setting} {entries : Entries Setting} {assigned : List (String × Setting)}
  {group : List (SettingName × Setting)} (order : VisitingOrder)

/-- No setting has a table for its value. -/
theorem SettingName.Fits.ne_table (hfits : name.Fits value) (entries : Entries Setting) :
    value ≠ .table entries := by
  rintro rfl
  cases name <;> simp [SettingName.Fits] at hfits

/-- A value of the type of a setting replaces the one that is there. -/
theorem SettingName.Fits.put_eq (hfits : name.Fits value) (items : Entries Setting) :
    Setting.put name.key value items = items.insert name.key value := by
  rw [Setting.put, name.lowercase_key]
  exact fun entries => hfits.ne_table entries

/-- Settings of the other table are set. -/
theorem SettingPart.Holds.skipAll (hholds : part.Holds items pairs)
    (hgroup : ∀ pair ∈ group, pair.1.part ≠ part) :
    part.Holds items (pairs ++ group.map SettingName.pathed) := by
  induction group generalizing pairs with
  | nil => rwa [List.map_nil, List.append_nil]
  | cons pair group ih =>
    obtain ⟨hpair, hrest⟩ := List.forall_mem_cons.mp hgroup
    rw [List.map_cons, List.append_cons]
    exact ih (hholds.skip hpair pair.2) hrest

/-- Settings are merged into their table one by one. -/
theorem SettingPart.Holds.exists_merge (hholds : part.Holds items pairs)
    (hgroup : ∀ pair ∈ group, pair.1.part = part ∧ pair.1.Fits pair.2) :
    ∃ merged, Setting.merge (group.map SettingName.member) (.table items) = .table merged ∧
      part.Holds merged (pairs ++ group.map SettingName.pathed) := by
  induction group generalizing items pairs with
  | nil => exact ⟨items, by rw [List.map_nil, Setting.merge], by rwa [List.map_nil, List.append_nil]⟩
  | cons pair group ih =>
    obtain ⟨⟨hpart, hfits⟩, hrest⟩ := List.forall_mem_cons.mp hgroup
    obtain ⟨merged, hmerged, hholds⟩ := ih (hholds.insert hpart hfits) hrest
    refine ⟨merged, ?_, by rwa [List.map_cons, List.append_cons]⟩
    rw [List.map_cons, SettingName.member, Setting.merge, Setting.entries, hfits.put_eq, hmerged]

/-- A tree has, in each of its two tables, the last values of the settings. A table that is missing
counts as an empty one. -/
def Setting.Holds (root : Setting) (pairs : List (String × Setting)) : Prop :=
  ∀ part : SettingPart, ∃ items,
    (root.entries.find? part.key).getD (.table []) = .table items ∧ part.Holds items pairs

/-- An empty tree holds no setting. -/
theorem Setting.holds_empty : Setting.Holds (.table []) [] := fun _ =>
  ⟨[], rfl, fun _ hitem => absurd hitem List.not_mem_nil, fun _ _ => rfl⟩

namespace Setting.Holds

/-- A table of settings is merged into the one that is there. -/
theorem layTable (hholds : root.Holds pairs)
    (hgroup : ∀ pair ∈ group, pair.1.part = part ∧ pair.1.Fits pair.2) :
    (Layers.layEntry root (part.key, .table (group.map SettingName.member))).Holds
      (pairs ++ group.map SettingName.pathed) := by
  obtain ⟨items, hitems, hpart⟩ := hholds part
  obtain ⟨merged, hmerged, hmergedHolds⟩ := hpart.exists_merge hgroup
  have hlaid : Layers.layEntry root (part.key, .table (group.map SettingName.member)) =
      .table (root.entries.insert part.key (.table merged)) := by
    rw [Layers.layEntry, part.parse?_key]
    simp only [SettingPath.set]
    rw [Setting.put, part.lowercase_key]
    simp only [hitems, hmerged]
  rw [hlaid]
  intro other
  rw [Setting.entries, Entries.find?_insert]
  by_cases hother : other = part
  · subst hother
    exact ⟨merged, by rw [if_pos rfl, Option.getD_some], hmergedHolds⟩
  · -- the other table stays as it is, and none of its settings is among those that are set
    rw [if_neg fun hkey => hother (SettingPart.key_injective hkey).symm]
    obtain ⟨kept, hkept, hkeptHolds⟩ := hholds other
    exact ⟨kept, hkept, hkeptHolds.skipAll fun pair hpair hsame =>
      hother (hsame.symm.trans (hgroup pair hpair).1)⟩

/-- To set a setting at its place is to lay a table over the tree that has nothing else. -/
theorem set_eq_layEntry (hholds : root.Holds pairs) (name : SettingName) (value : Setting) :
    name.place.set value root =
      Layers.layEntry root (name.part.key, .table [(name.key, value)]) := by
  obtain ⟨items, hitems, -⟩ := hholds name.part
  have hentries : ((root.entries.find? name.part.key).getD .unit).entries = items := by
    cases hfound : root.entries.find? name.part.key with
    | none =>
      rw [hfound] at hitems
      exact Setting.table.inj hitems
    | some table =>
      rw [hfound] at hitems
      rw [Option.getD_some] at hitems ⊢
      rw [hitems, Setting.entries]
  rw [Layers.layEntry, name.part.parse?_key]
  simp only [SettingName.place, SettingPath.set, SettingPath.modify]
  rw [name.part.lowercase_key, hentries, Setting.put, name.part.lowercase_key]
  simp only [hitems]
  rw [Setting.merge, Setting.merge, Setting.entries]

/-- A setting is set at its place. -/
theorem set (hholds : root.Holds pairs) (hfits : name.Fits value) :
    (name.place.set value root).Holds (pairs ++ [(name.path, value)]) := by
  have hgroup : ∀ pair ∈ [(name, value)], pair.1.part = name.part ∧ pair.1.Fits pair.2 :=
    List.forall_mem_singleton.mpr ⟨rfl, hfits⟩
  rw [hholds.set_eq_layEntry name value]
  exact hholds.layTable hgroup

/-- Settings are set at their places one after another. -/
theorem setAll (hholds : root.Holds pairs) (hgroup : ∀ pair ∈ group, pair.1.Fits pair.2) :
    ((group.map SettingName.placed).foldl (fun root entry => entry.1.set entry.2 root) root).Holds
      (pairs ++ group.map SettingName.pathed) := by
  induction group generalizing root pairs with
  | nil => rwa [List.map_nil, List.map_nil, List.append_nil]
  | cons pair group ih =>
    obtain ⟨hfits, hrest⟩ := List.forall_mem_cons.mp hgroup
    rw [List.map_cons, List.map_cons, List.append_cons]
    exact ih (hholds.set hfits) hrest

/-- Other pairs with the same last values are as good. -/
theorem congr (hholds : root.Holds pairs) {other : List (String × Setting)}
    (hsame : ∀ key, lastValue? other key = lastValue? pairs key) : root.Holds other := by
  intro part
  obtain ⟨items, hitems, hpart⟩ := hholds part
  exact ⟨items, hitems, hpart.congr hsame⟩

/-- Behind other pairs, pairs with distinct keys may come in any order. -/
theorem perm {other : List (String × Setting)} (hholds : root.Holds (pairs ++ other))
    (hperm : assigned.Perm other) (hnodup : (assigned.map Prod.fst).Nodup) :
    root.Holds (pairs ++ assigned) := by
  apply hholds.congr
  intro key
  rw [Entries.lastValue?_append, Entries.lastValue?_append,
    Entries.lastValue?_eq_of_perm hnodup hperm]

end Setting.Holds

namespace Layers

/-- An entry of a file sets some of the settings and nothing else: those of a table that it has, or one
under its path. The pairs are the settings by their paths. -/
inductive Assigns : String × Setting → List (String × Setting) → Prop
  | table (part : SettingPart) (group : List (SettingName × Setting))
      (hgroup : ∀ pair ∈ group, pair.1.part = part ∧ pair.1.Fits pair.2) :
      Assigns (part.key, .table (group.map SettingName.member)) (group.map SettingName.pathed)
  | path (name : SettingName) (value : Setting) (hfits : name.Fits value) :
      Assigns (name.path, value) [(name.path, value)]

/-- Entries set some of the settings, each entry those that it assigns. -/
def Sets (entries : Entries Setting) (assigned : List (String × Setting)) : Prop :=
  ∃ parts, List.Forall₂ Assigns entries parts ∧ parts.flatten = assigned

/-- A value of the type of a setting has no table in it to be gone through. -/
theorem arrange_eq_self (hfits : name.Fits value) : order.arrange value = value := by
  cases name <;> obtain ⟨_, rfl⟩ := hfits <;> rfl

/-- In another order of its table, an entry assigns the same in another order. -/
theorem Assigns.arrange {key : String} {part : List (String × Setting)}
    (hassigns : Assigns (key, value) part) :
    ∃ arranged, Assigns (key, order.arrange value) arranged ∧ arranged.Perm part := by
  cases hassigns with
  | path name value hfits =>
    rw [arrange_eq_self order hfits]
    exact ⟨_, .path name value hfits, .refl _⟩
  | table part group hgroup =>
    have harranged : order.arrangeEntries (group.map SettingName.member) =
        group.map SettingName.member := by
      induction group with
      | nil => rfl
      | cons pair group ih =>
        obtain ⟨hpair, hrest⟩ := List.forall_mem_cons.mp hgroup
        rw [List.map_cons, SettingName.member, VisitingOrder.arrangeEntries,
          arrange_eq_self order hpair.2, ih hrest]
    obtain ⟨visited, hvisited, hperm⟩ :=
      exists_eq_map_of_perm (order.entries_perm (group.map SettingName.member))
    refine ⟨visited.map SettingName.pathed, ?_, hperm.map _⟩
    rw [VisitingOrder.arrange, harranged, hvisited]
    exact .table part visited fun pair hpair => hgroup pair (hperm.subset hpair)

/-- In the order of visiting, the entries of a file set the same in another order. -/
theorem Sets.visit (hsets : Sets entries assigned) :
    ∃ visited, Sets (order.entries (order.arrangeEntries entries)) visited ∧
      visited.Perm assigned := by
  obtain ⟨parts, hparts, rfl⟩ := hsets
  have harranged : ∃ arranged, List.Forall₂ Assigns (order.arrangeEntries entries) arranged ∧
      List.Forall₂ List.Perm arranged parts := by
    induction hparts with
    | nil => exact ⟨[], .nil, .nil⟩
    | @cons entry part entries parts hentry _ ih =>
      obtain ⟨part', hpart', hperm⟩ := hentry.arrange order
      obtain ⟨arranged, hrest, hperms⟩ := ih
      exact ⟨part' :: arranged, .cons hpart' hrest, .cons hperm hperms⟩
  obtain ⟨arranged, harranged, hperms⟩ := harranged
  obtain ⟨visited, hvisited, hperm⟩ :=
    List.perm_comp_forall₂ (order.entries_perm _) harranged
  exact ⟨visited.flatten, ⟨visited, hvisited, rfl⟩,
    hperm.flatten.trans (List.Perm.flatten_congr hperms)⟩

end Layers

/-- Entries of a file are laid over a tree one after another. -/
theorem Setting.Holds.layAll (hholds : root.Holds pairs) (hsets : Layers.Sets entries assigned) :
    (entries.foldl Layers.layEntry root).Holds (pairs ++ assigned) := by
  obtain ⟨parts, hparts, rfl⟩ := hsets
  induction hparts generalizing root pairs with
  | nil => rwa [List.flatten_nil, List.append_nil]
  | cons hentry _ ih =>
    rw [List.flatten_cons, ← List.append_assoc]
    cases hentry with
    | table part group hgroup => exact ih (hholds.layTable hgroup)
    | path name value hfits =>
      have hlaid : Layers.layEntry root (name.path, value) = name.place.set value root := by
        rw [Layers.layEntry, name.parse?_path]
      rw [List.foldl_cons, hlaid]
      exact ih (hholds.set hfits)

/-- The settings of a file that sets none of them twice are laid over a tree, in whichever order its
tables are gone through. -/
theorem Setting.Holds.lay (hholds : root.Holds pairs) (hsets : Layers.Sets entries assigned)
    (hnodup : (assigned.map Prod.fst).Nodup) :
    (Layers.lay order root entries).Holds (pairs ++ assigned) := by
  obtain ⟨visited, hvisited, hperm⟩ := hsets.visit order
  exact (hholds.layAll hvisited).perm hperm.symm hnodup

/-- When a file sets an option twice, in its table and under a path, the one that is visited last counts.
-/
example :
    let reversed : VisitingOrder :=
      ⟨List.reverse, List.reverse, List.reverse_perm, List.reverse_perm⟩
    let entries : Entries Setting :=
      [("spin", .table [("count", .integer 2)]), ("spin.count", .integer 3)]
    Layers.lay .asWritten (.table []) entries = .table [("spin", .table [("count", .integer 3)])] ∧
      Layers.lay reversed (.table []) entries = .table [("spin", .table [("count", .integer 2)])] := by
  decide +kernel

end Laying

/-- The values of the settings before anything is set. -/
def SettingName.defaults : List (String × Setting) :=
  all.map fun name => (name.path, Settings.get {} name)

/-- Every setting has one default. -/
theorem SettingName.nodup_defaults : (defaults.map Prod.fst).Nodup := by
  rw [defaults, List.map_map]
  exact List.Nodup.map path_injective (by decide)

namespace Layers

/-- The defaults set every setting. -/
theorem sets_defaults : Sets defaults SettingName.defaults := by
  have hgroup (part : SettingPart) (names : List SettingName)
      (hnames : ∀ name ∈ names, name.part = part) :
      ∀ pair ∈ names.map fun name => (name, Settings.get {} name),
        pair.1.part = part ∧ pair.1.Fits pair.2 := by
    intro pair hpair
    obtain ⟨name, hname, rfl⟩ := List.mem_map.mp hpair
    exact ⟨hnames name hname, Settings.fits_get {} name⟩
  exact ⟨_, .cons (.table .markers _ (hgroup .markers (Role.all.map .marker) (by decide)))
    (.cons (.table .spin _
      (hgroup .spin [.substitute, .checkPlaceholders, .strict, .count] (by decide))) .nil), rfl⟩

end Layers

/-- An integer is read as a count just when it is one of 64 bits. -/
theorem Setting.toCount_integer_eq_ok_iff {key : String} {number : Int} {count : UInt64} :
    Setting.toCount key (.integer number) = .ok count ↔ number = count.toNat := by
  have hsize := count.toNat_lt
  rw [toCount]
  by_cases hfits : 0 ≤ number ∧ number.toNat < UInt64.size
  · rw [if_pos (by simpa using hfits), Except.ok.injEq, ← UInt64.toNat_inj,
      UInt64.toNat_ofNat_of_lt' hfits.2]
    omega
  · rw [if_neg (by simpa using hfits)]
    apply iff_of_false (by simp)
    rintro rfl
    exact hfits ⟨Int.natCast_nonneg _, hsize⟩

/-- A count is read as it is. -/
theorem SpinDefaults.readField_count (place : String) (count : UInt64) :
    readField SettingName.count.key place (.integer count.toNat) = .ok (.number count) := by
  change (Setting.toCount place (.integer count.toNat)).map Field.number = _
  rw [Setting.toCount_integer_eq_ok_iff.mpr rfl]
  rfl

/-- A field that is there is found. -/
theorem requireField_of_find? {α : Type} {fields : List (String × α)} {key : String} {field : α}
    (hfound : Entries.find? key fields = some field) : requireField fields key = .ok field := by
  rw [requireField, Entries.lookup_eq_find?, hfound]

/-- If every entry is a field that can be read, all fields are read, each as its first entry says. -/
theorem RecordShape.exists_readEntries {α : Type} (shape : RecordShape)
    (read : (field place : String) → Setting → Except SettingsFault α)
    (hread : ∀ item ∈ items, item.1 ∈ shape.fields ∧
      ∃ field, read item.1 (shape.key ++ "." ++ item.1) item.2 = .ok field) :
    ∃ fields, shape.readEntries read items = .ok fields ∧
      ∀ key value, items.find? key = some value →
        ∃ field, Entries.find? key fields = some field ∧
          read key (shape.key ++ "." ++ key) value = .ok field := by
  induction items with
  | nil => exact ⟨[], rfl, fun _ _ hfound => by cases hfound⟩
  | cons item items ih =>
    obtain ⟨⟨hknown, first, hfirst⟩, hrest⟩ := List.forall_mem_cons.mp hread
    obtain ⟨fields, hfields, hvalues⟩ := ih hrest
    refine ⟨(item.1, first) :: fields, ?_, fun key value hfound => ?_⟩
    · rw [readEntries, if_pos (List.contains_iff_mem.mpr hknown), hfirst, hfields]
      rfl
    · rw [Entries.find?] at hfound ⊢
      by_cases hkey : item.1 = key
      · subst hkey
        rw [if_pos rfl] at hfound ⊢
        exact ⟨first, rfl, Option.some.inj hfound ▸ hfirst⟩
      · rw [if_neg hkey] at hfound ⊢
        exact hvalues key value hfound

namespace SettingPart.Holds

/-- A setting that was set is in its table, and its value has its type. -/
theorem find?_and_fits (hholds : part.Holds items pairs) (hpart : name.part = part)
    (hvalue : lastValue? pairs name.path = some value) :
    items.find? name.key = some value ∧ name.Fits value := by
  have hfound := (hholds.value name hpart).trans hvalue
  obtain ⟨other, -, hkey, hfits⟩ := hholds.known _ (Entries.mem_of_find? hfound)
  exact ⟨hfound, SettingName.key_injective hkey ▸ hfits⟩

/-- If every setting of a table was set, and values of the right types can be read, the fields are read,
each as the last value of its setting. -/
theorem exists_fields {α : Type} (shape : RecordShape)
    (read : (field place : String) → Setting → Except SettingsFault α)
    (hholds : part.Holds items pairs)
    (hset : ∀ name : SettingName, ∃ value, lastValue? pairs name.path = some value)
    (hkeys : ∀ name : SettingName, name.part = part → name.key ∈ shape.fields)
    (hread : ∀ (name : SettingName) place value, name.part = part → name.Fits value →
      ∃ field, read name.key place value = .ok field) :
    ∃ fields, shape.readEntries read items = .ok fields ∧
      ∀ name : SettingName, name.part = part → ∃ value field,
        lastValue? pairs name.path = some value ∧ name.Fits value ∧
          requireField fields name.key = .ok field ∧
          read name.key (shape.key ++ "." ++ name.key) value = .ok field := by
  have hitems : ∀ item ∈ items, item.1 ∈ shape.fields ∧
      ∃ field, read item.1 (shape.key ++ "." ++ item.1) item.2 = .ok field := by
    intro item hitem
    obtain ⟨name, hpart, hkey, hfits⟩ := hholds.known item hitem
    rw [hkey]
    exact ⟨hkeys name hpart, hread name _ _ hpart hfits⟩
  obtain ⟨fields, hfields, hvalues⟩ := shape.exists_readEntries read hitems
  refine ⟨fields, hfields, fun name hpart => ?_⟩
  obtain ⟨value, hvalue⟩ := hset name
  obtain ⟨hfound, hfits⟩ := hholds.find?_and_fits hpart hvalue
  obtain ⟨field, hrequired, hfield⟩ := hvalues _ _ hfound
  exact ⟨value, field, hvalue, hfits, requireField_of_find? hrequired, hfield⟩

/-- The markers are read from their table. -/
theorem exists_markers (hholds : markers.Holds items pairs)
    (hset : ∀ name : SettingName, ∃ value, lastValue? pairs name.path = some value) :
    ∃ texts, MarkerTexts.ofSetting (.table items) = .ok texts ∧
      ∀ role, lastValue? pairs (SettingName.marker role).path = some (.text (texts.get role)) := by
  have hkeys (name : SettingName) (hpart : name.part = .markers) :
      name.key ∈ MarkerTexts.shape.fields := by
    cases name with
    | marker role => exact List.mem_map_of_mem role.mem_all
    | _ => cases hpart
  have hread (name : SettingName) (place : String) (value : Setting) (hpart : name.part = .markers)
      (hfits : name.Fits value) : ∃ text, value.toText place = .ok text := by
    cases name with
    | marker role =>
      obtain ⟨text, rfl⟩ := hfits
      exact ⟨text, rfl⟩
    | _ => cases hpart
  obtain ⟨fields, hfields, hvalues⟩ := hholds.exists_fields MarkerTexts.shape
    (fun _ place value => value.toText place) hset hkeys hread
  have htexts (role : Role) : ∃ text, requireField fields role.key = .ok text ∧
      lastValue? pairs (SettingName.marker role).path = some (.text text) := by
    obtain ⟨_, text, hvalue, ⟨_, rfl⟩, hrequired, ⟨⟩⟩ := hvalues (.marker role) rfl
    exact ⟨text, hrequired, hvalue⟩
  choose text hrequired hvalue using htexts
  refine ⟨⟨text .opening, text .closing, text .separator, text .placeholder⟩, ?_, fun role => ?_⟩
  · refine Except.bind_eq_ok_iff.mpr ⟨fields, hfields, ?_⟩
    refine Except.bind_eq_ok_iff.mpr ⟨_, hrequired .opening, ?_⟩
    refine Except.bind_eq_ok_iff.mpr ⟨_, hrequired .closing, ?_⟩
    refine Except.bind_eq_ok_iff.mpr ⟨_, hrequired .separator, ?_⟩
    exact Except.bind_eq_ok_iff.mpr ⟨_, hrequired .placeholder, rfl⟩
  · cases role <;> exact hvalue _

/-- The options are read from their table. -/
theorem exists_options (hholds : spin.Holds items pairs)
    (hset : ∀ name : SettingName, ∃ value, lastValue? pairs name.path = some value) :
    ∃ options, SpinDefaults.ofSetting (.table items) = .ok options ∧
      ∀ markers (name : SettingName), name.part = .spin →
        lastValue? pairs name.path = some ((Settings.mk markers options).get name) := by
  have hkeys (name : SettingName) (hpart : name.part = .spin) :
      name.key ∈ SpinDefaults.shape.fields := by
    cases name with
    | marker role => cases hpart
    | _ => decide
  have hread (name : SettingName) (place : String) (value : Setting) (hpart : name.part = .spin)
      (hfits : name.Fits value) : ∃ field, SpinDefaults.readField name.key place value = .ok field := by
    cases name with
    | marker role => cases hpart
    | count =>
      obtain ⟨count, rfl⟩ := hfits
      exact ⟨_, SpinDefaults.readField_count place count⟩
    | _ =>
      obtain ⟨flag, rfl⟩ := hfits
      exact ⟨.flag flag, rfl⟩
  obtain ⟨fields, hfields, hvalues⟩ :=
    hholds.exists_fields SpinDefaults.shape SpinDefaults.readField hset hkeys hread
  obtain ⟨_, _, hsubstitute, ⟨substitute, rfl⟩, hrequiredSubstitute, ⟨⟩⟩ := hvalues .substitute rfl
  obtain ⟨_, _, hcheck, ⟨check, rfl⟩, hrequiredCheck, ⟨⟩⟩ := hvalues .checkPlaceholders rfl
  obtain ⟨_, _, hstrict, ⟨strict, rfl⟩, hrequiredStrict, ⟨⟩⟩ := hvalues .strict rfl
  obtain ⟨_, _, hcount, ⟨count, rfl⟩, hrequiredCount, hreadCount⟩ := hvalues .count rfl
  rw [SpinDefaults.readField_count] at hreadCount
  cases hreadCount
  refine ⟨⟨substitute, check, strict, count⟩, ?_, fun markers name hpart => ?_⟩
  · refine Except.bind_eq_ok_iff.mpr ⟨fields, hfields, ?_⟩
    refine Except.bind_eq_ok_iff.mpr ⟨_, hrequiredSubstitute, ?_⟩
    refine Except.bind_eq_ok_iff.mpr ⟨_, hrequiredCheck, ?_⟩
    refine Except.bind_eq_ok_iff.mpr ⟨_, hrequiredStrict, ?_⟩
    exact Except.bind_eq_ok_iff.mpr ⟨_, hrequiredCount, rfl⟩
  · cases name with
    | marker role => cases hpart
    | substitute => exact hsubstitute
    | checkPlaceholders => exact hcheck
    | strict => exact hstrict
    | count => exact hcount

end SettingPart.Holds

namespace Setting.Holds

variable {root : Setting}

/-- A table in which a setting was set is there. -/
theorem exists_table (hholds : root.Holds pairs)
    (hvalue : lastValue? pairs name.path = some value) :
    ∃ items, root.entries.find? name.part.key = some (.table items) ∧ name.part.Holds items pairs := by
  obtain ⟨items, hitems, hpart⟩ := hholds name.part
  refine ⟨items, ?_, hpart⟩
  cases hfound : root.entries.find? name.part.key with
  | none =>
    -- a missing table counts as an empty one, in which nothing is found
    rw [hfound] at hitems
    obtain rfl := Setting.table.inj hitems
    cases (hpart.find?_and_fits rfl hvalue).1
  | some table =>
    rw [hfound] at hitems
    exact congrArg some hitems

/-- If every setting was set, the settings are read from the tree, each with its last value. -/
theorem exists_settings (hholds : root.Holds pairs)
    (hset : ∀ name : SettingName, ∃ value, lastValue? pairs name.path = some value) :
    ∃ settings, Settings.ofEntries root.entries = .ok settings ∧
      ∀ name : SettingName, lastValue? pairs name.path = some (settings.get name) := by
  obtain ⟨_, hopening⟩ := hset (.marker .opening)
  obtain ⟨_, hcount⟩ := hset .count
  obtain ⟨markerItems, hmarkerTable, hmarkers⟩ := hholds.exists_table hopening
  obtain ⟨optionItems, hoptionTable, hoptions⟩ := hholds.exists_table hcount
  obtain ⟨texts, htexts, hmarkerValues⟩ := hmarkers.exists_markers hset
  obtain ⟨options, hread, hoptionValues⟩ := hoptions.exists_options hset
  refine ⟨⟨texts, options⟩, ?_, fun name => ?_⟩
  · refine Except.bind_eq_ok_iff.mpr ⟨_, requireField_of_find? hmarkerTable, ?_⟩
    refine Except.bind_eq_ok_iff.mpr ⟨_, requireField_of_find? hoptionTable, ?_⟩
    refine Except.bind_eq_ok_iff.mpr ⟨_, htexts, ?_⟩
    exact Except.bind_eq_ok_iff.mpr ⟨_, hread, rfl⟩
  · cases name with
    | marker role => exact hmarkerValues role
    | _ => exact hoptionValues texts _ rfl

end Setting.Holds

namespace Layers

/-- A file exists, is TOML, and sets some of the settings, none of them twice. -/
def FileSets (content : Option String) (assigned : List (String × Setting)) : Prop :=
  ∃ text entries, content = some text ∧ Toml.parse? text = some entries ∧ Sets entries assigned ∧
    (assigned.map Prod.fst).Nodup

/-- A path is that of a setting, and the value has its type. -/
def IsProper (pair : String × Setting) : Prop :=
  ∃ name : SettingName, pair.1 = name.path ∧ name.Fits pair.2

/-- The path and the value of an override. -/
def overridePath? (pair : String × Setting) : Option (SettingPath × Setting) :=
  (SettingPath.parse? pair.1).map (·, pair.2)

/-- A call on the settings to be built. -/
inductive Call where
  | file (content : Option String)
  | override (key : String) (value : Setting)

namespace Call

/-- The content of a file that is added. -/
def file? : Call → Option (Option String)
  | file content => some content
  | override _ _ => none

/-- The path and the value that override. -/
def override? : Call → Option (String × Setting)
  | file _ => none
  | override key value => some (key, value)

/-- Make a call. -/
def perform (layers : Layers) : Call → Except SettingsFault Layers
  | file content => .ok (layers.addFile content)
  | override key value => layers.override key value

end Call

/-- Make calls one after another, and build the settings. -/
def build (order : VisitingOrder) (calls : List Call) : Except SettingsFault Settings := do
  (← calls.foldlM Call.perform { order := order }).settings

/-- The files are read, and what they set is laid over a tree in their order. -/
theorem exists_mapM_readFile (order : VisitingOrder) {contents : List (Option String)}
    {files : List (List (String × Setting))} (hfiles : List.Forall₂ FileSets contents files) :
    ∃ read, contents.mapM readFile = .ok read ∧ ∀ (root : Setting) pairs, root.Holds pairs →
      (read.foldl (lay order) root).Holds (pairs ++ files.flatten) := by
  induction hfiles with
  | nil =>
    refine ⟨[], rfl, fun root pairs hholds => ?_⟩
    rwa [List.flatten_nil, List.append_nil]
  | cons hfile _ ih =>
    obtain ⟨text, entries, rfl, hentries, hsets, hnodup⟩ := hfile
    obtain ⟨read, hread, hlaid⟩ := ih
    refine ⟨entries :: read, ?_, fun root pairs hholds => ?_⟩
    · have hfirst : readFile (some text) = .ok entries := by rw [readFile, hentries]
      rw [List.mapM_cons, hfirst, hread]
      rfl
    · rw [List.flatten_cons, ← List.append_assoc]
      exact hlaid _ _ (hholds.lay order hsets hnodup)

section Supersede

variable {κ α : Type} [DecidableEq κ] {kept : List (κ × α)}

/-- One pair for each key stays one pair for each key. -/
theorem nodup_supersede (hnodup : (kept.map Prod.fst).Nodup) (pair : κ × α) :
    ((supersede kept pair).map Prod.fst).Nodup := by
  rw [supersede, List.map_append, List.map_singleton, List.nodup_append]
  refine ⟨(List.filter_sublist.map Prod.fst).nodup hnodup, List.nodup_singleton _, ?_⟩
  rintro key hkey _ hlast rfl
  obtain ⟨other, hother, rfl⟩ := List.mem_map.mp hkey
  exact of_decide_eq_true (List.mem_filter.mp hother).2 (List.mem_singleton.mp hlast)

/-- Keys that are renamed apart are superseded alike. -/
theorem map_supersede {κ' : Type} [DecidableEq κ'] {rename : κ → κ'}
    (hrename : Function.Injective rename) (kept : List (κ × α)) (pair : κ × α) :
    (supersede kept pair).map (Prod.map rename id) =
      supersede (kept.map (Prod.map rename id)) (Prod.map rename id pair) := by
  simp only [supersede, List.map_append, List.map_singleton, List.filter_map]
  congr 2
  apply List.filter_congr
  intro other _
  simp [hrename.eq_iff]

/-- The new pair decides on its key, and the other keys keep their last values. -/
theorem lastValue?_supersede (kept : List (String × α)) (pair : String × α) (key : String) :
    lastValue? (supersede kept pair) key = lastValue? (kept ++ [pair]) key := by
  rw [supersede, lastValue?_concat, lastValue?_concat]
  by_cases hkey : pair.1 = key
  · rw [if_pos hkey, if_pos hkey]
  · rw [if_neg hkey, if_neg hkey]
    induction kept using List.reverseRecOn with
    | nil => rfl
    | append_singleton kept other ih =>
      rw [List.filter_append, lastValue?_concat]
      by_cases hother : other.1 = pair.1
      · -- the pair that is dropped has another key
        rw [List.filter_cons_of_neg (by simpa using hother), List.filter_nil, List.append_nil,
          if_neg fun hsame => hkey (hother.symm.trans hsame), ih]
      · rw [List.filter_cons_of_pos (by simpa using hother), List.filter_nil, lastValue?_concat, ih]

/-- Pairs that supersede one another leave one pair for each key. -/
theorem nodup_foldl_supersede (hnodup : (kept.map Prod.fst).Nodup) (pairs : List (κ × α)) :
    ((pairs.foldl supersede kept).map Prod.fst).Nodup := by
  induction pairs generalizing kept with
  | nil => exact hnodup
  | cons pair pairs ih => exact ih (nodup_supersede hnodup pair)

/-- Pairs whose keys are renamed apart supersede one another alike. -/
theorem map_foldl_supersede {κ' : Type} [DecidableEq κ'] {rename : κ → κ'}
    (hrename : Function.Injective rename) (kept pairs : List (κ × α)) :
    (pairs.foldl supersede kept).map (Prod.map rename id) =
      (pairs.map (Prod.map rename id)).foldl supersede (kept.map (Prod.map rename id)) := by
  induction pairs generalizing kept with
  | nil => rfl
  | cons pair pairs ih =>
    rw [List.map_cons, List.foldl_cons, List.foldl_cons, ih, map_supersede hrename]

/-- Pairs that are left were there already, or are among those that were added. -/
theorem mem_foldl_supersede {pairs : List (κ × α)} {pair : κ × α}
    (hmem : pair ∈ pairs.foldl supersede kept) : pair ∈ kept ∨ pair ∈ pairs := by
  induction pairs generalizing kept with
  | nil => exact .inl hmem
  | cons first pairs ih =>
    rcases ih hmem with hfirst | hrest
    · rcases List.mem_append.mp hfirst with hkept | hsame
      · exact .inl (List.mem_of_mem_filter hkept)
      · exact .inr (List.mem_cons.mpr (.inl (List.mem_singleton.mp hsame)))
    · exact .inr (List.mem_cons_of_mem first hrest)

/-- Each key keeps its last value. -/
theorem lastValue?_foldl_supersede (kept pairs : List (String × α)) (key : String) :
    lastValue? (pairs.foldl supersede kept) key = lastValue? (kept ++ pairs) key := by
  induction pairs generalizing kept with
  | nil => rw [List.foldl_nil, List.append_nil]
  | cons pair pairs ih =>
    rw [List.foldl_cons, ih, Entries.lastValue?_append, lastValue?_supersede,
      ← Entries.lastValue?_append, ← List.append_cons]

end Supersede

/-- Overrides that are proper are those of some settings. -/
theorem exists_eq_map_pathed {overrides : List (String × Setting)}
    (hproper : ∀ pair ∈ overrides, IsProper pair) :
    ∃ group : List (SettingName × Setting), overrides = group.map SettingName.pathed ∧
      ∀ pair ∈ group, pair.1.Fits pair.2 := by
  induction overrides with
  | nil => exact ⟨[], rfl, List.forall_mem_nil _⟩
  | cons pair overrides ih =>
    obtain ⟨⟨name, hname, hfits⟩, hrest⟩ := List.forall_mem_cons.mp hproper
    obtain ⟨group, rfl, hgroup⟩ := ih hrest
    obtain ⟨_, value⟩ := pair
    obtain rfl := hname
    exact ⟨(name, value) :: group, rfl, List.forall_mem_cons.mpr ⟨hfits, hgroup⟩⟩

/-- The paths of settings name their places. -/
theorem mapM_overridePath? (group : List (SettingName × Setting)) :
    (group.map SettingName.pathed).mapM overridePath? = some (group.map SettingName.placed) := by
  induction group with
  | nil => rfl
  | cons pair group ih =>
    have hfirst : overridePath? (SettingName.pathed pair) = some (SettingName.placed pair) := by
      rw [overridePath?, SettingName.pathed, pair.1.parse?_path]
      rfl
    rw [List.map_cons, List.mapM_cons, hfirst, ih]
    rfl

/-- The overrides are set in a tree, one for each place and in whichever order they are gone through.
The last ones count. -/
theorem holds_foldl_overrides (order : VisitingOrder) {group : List (SettingName × Setting)}
    (hgroup : ∀ pair ∈ group, pair.1.Fits pair.2) {root : Setting} (hholds : root.Holds pairs) :
    ((order.overrides ((group.map SettingName.placed).foldl supersede [])).foldl
      (fun root entry => entry.1.set entry.2 root) root).Holds
        (pairs ++ group.map SettingName.pathed) := by
  let last := group.foldl supersede []
  have hplaced : (group.map SettingName.placed).foldl supersede [] = last.map SettingName.placed :=
    (map_foldl_supersede SettingName.place_injective [] group).symm
  have hpathed : (group.map SettingName.pathed).foldl supersede [] = last.map SettingName.pathed :=
    (map_foldl_supersede SettingName.path_injective [] group).symm
  obtain ⟨visited, hvisited, hperm⟩ :=
    exists_eq_map_of_perm (order.overrides_perm (last.map SettingName.placed))
  have hfits : ∀ pair ∈ visited, pair.1.Fits pair.2 := by
    intro pair hpair
    apply hgroup pair
    exact (mem_foldl_supersede (hperm.subset hpair)).resolve_left List.not_mem_nil
  have hnodup : ((last.map SettingName.pathed).map Prod.fst).Nodup :=
    hpathed ▸ @nodup_foldl_supersede _ _ _ [] List.nodup_nil _
  have hlast := (hholds.setAll hfits).perm (hperm.symm.map SettingName.pathed) hnodup
  rw [hplaced, hvisited]
  apply hlast.congr
  intro key
  rw [Entries.lastValue?_append, Entries.lastValue?_append, ← hpathed, lastValue?_foldl_supersede,
    List.nil_append]

/-- Files and overrides are kept apart. -/
theorem foldlM_perform (layers : Layers) (calls : List Call) :
    calls.foldlM Call.perform layers =
      match (calls.filterMap Call.override?).mapM overridePath? with
      | some paths => .ok { layers with
          files := layers.files ++ calls.filterMap Call.file?
          overrides := paths.foldl supersede layers.overrides }
      | none => .error .badPath := by
  induction calls generalizing layers with
  | nil => simp [pure, Except.pure]
  | cons call calls ih =>
    cases call with
    | file content =>
      have hcall : (Call.file content :: calls).foldlM Call.perform layers =
          calls.foldlM Call.perform (layers.addFile content) := rfl
      have hfiles : (Call.file content :: calls).filterMap Call.file? =
          content :: calls.filterMap Call.file? := rfl
      have hoverrides : (Call.file content :: calls).filterMap Call.override? =
          calls.filterMap Call.override? := rfl
      rw [hcall, hfiles, hoverrides, ih, addFile,
        List.append_cons layers.files content (calls.filterMap Call.file?)]
    | override key value =>
      have hfiles : (Call.override key value :: calls).filterMap Call.file? =
          calls.filterMap Call.file? := rfl
      have hoverrides : (Call.override key value :: calls).filterMap Call.override? =
          (key, value) :: calls.filterMap Call.override? := rfl
      rw [hfiles, hoverrides, List.mapM_cons, List.foldlM_cons, overridePath?]
      cases hpath : SettingPath.parse? key with
      | none =>
        -- the calls end here, as the reading of the keys does
        have hcall : Call.perform layers (.override key value) = .error .badPath := by
          rw [Call.perform, Layers.override, hpath]
        rw [hcall]
        rfl
      | some path =>
        have hcall : Call.perform layers (.override key value) =
            .ok { layers with overrides := supersede layers.overrides (path, value) } := by
          rw [Call.perform, Layers.override, hpath]
        rw [hcall]
        change calls.foldlM Call.perform { layers with
          overrides := supersede layers.overrides (path, value) } = _
        rw [ih]
        cases (calls.filterMap Call.override?).mapM overridePath? <;> rfl

/-- Calls in another order build the same, if the files keep their order and the overrides theirs. -/
theorem build_of_interleaving (order : VisitingOrder) {calls other : List Call}
    (hfiles : other.filterMap Call.file? = calls.filterMap Call.file?)
    (hoverrides : other.filterMap Call.override? = calls.filterMap Call.override?) :
    build order other = build order calls := by
  rw [build, build, foldlM_perform, foldlM_perform, hfiles, hoverrides]

/-- Every setting has its default. -/
theorem lastValue?_defaults (name : SettingName) :
    lastValue? SettingName.defaults name.path = some (Settings.get {} name) :=
  (Entries.lastValue?_eq_some_iff SettingName.nodup_defaults).mpr
    (List.mem_map_of_mem name.mem_all)

/-- The text of the defaults is a file that sets every setting once. -/
theorem fileSets_defaults : FileSets (some defaultText) SettingName.defaults :=
  ⟨defaultText, defaults, rfl, parse?_defaultText, sets_defaults, SettingName.nodup_defaults⟩

/-- The value of a setting: that of the last override of it, or else of the last file that sets it, or
else the default. -/
def layeredValue (files : List (List (String × Setting))) (overrides : List (String × Setting))
    (name : SettingName) : Setting :=
  (lastValue? overrides name.path <|>
    files.reverse.findSome? fun assigned => lastValue? assigned name.path).getD (Settings.get {} name)

/-- Behind the defaults and the files, the overrides decide first, then the files, and then the
defaults. -/
theorem lastValue?_layers (files : List (List (String × Setting)))
    (overrides : List (String × Setting)) (name : SettingName) :
    lastValue? (SettingName.defaults ++ files.flatten ++ overrides) name.path =
      some (layeredValue files overrides name) := by
  rw [Entries.lastValue?_append, Entries.lastValue?_append, Entries.lastValue?_flatten,
    lastValue?_defaults, layeredValue]
  cases lastValue? overrides name.path with
  | some value => rfl
  | none =>
    cases files.reverse.findSome? fun assigned => lastValue? assigned name.path <;> rfl

/-- Settings are built from files and overrides, and each has its layered value. -/
theorem exists_build (order : VisitingOrder) {calls : List Call} {files : List (List (String × Setting))}
    (hfiles : List.Forall₂ FileSets (calls.filterMap Call.file?) files)
    (hproper : ∀ pair ∈ calls.filterMap Call.override?, IsProper pair) :
    ∃ settings, build order calls = .ok settings ∧ ∀ name,
      settings.get name = layeredValue files (calls.filterMap Call.override?) name := by
  obtain ⟨group, hgroup, hfits⟩ := exists_eq_map_pathed hproper
  obtain ⟨read, hread, hlaid⟩ := exists_mapM_readFile order (.cons fileSets_defaults hfiles)
  have hholds := holds_foldl_overrides order hfits (hlaid _ _ Setting.holds_empty)
  rw [List.nil_append, List.flatten_cons, ← hgroup] at hholds
  obtain ⟨settings, hsettings, hvalues⟩ :=
    hholds.exists_settings fun name => ⟨_, lastValue?_layers files _ name⟩
  refine ⟨settings, ?_, fun name => ?_⟩
  · rw [build, foldlM_perform, hgroup, mapM_overridePath?]
    refine Except.bind_eq_ok_iff.mpr ⟨_, rfl, ?_⟩
    exact Except.bind_eq_ok_iff.mpr ⟨_, Except.bind_eq_ok_iff.mpr ⟨read, hread, rfl⟩, hsettings⟩
  · exact Option.some.inj ((hvalues name).symm.trans (lastValue?_layers files _ name))

end Layers

/-- Markers can be used just when none of their texts is empty. -/
theorem Settings.exists_usableMarkers_iff (settings : Settings) :
    (∃ markers, settings.usableMarkers = .ok markers) ↔ ∀ role, settings.markers.get role ≠ "" := by
  constructor
  · rintro ⟨markers, hmarkers⟩ role
    rw [← Markers.ofTexts_eq_ok_iff.mp hmarkers]
    exact markers.nonempty role
  · exact fun hnonempty => ⟨⟨settings.markers, hnonempty⟩, Markers.ofTexts_eq_ok_iff.mpr rfl⟩

/-- Settings are layered key by key. Files and overrides with values of the right types are built, and each
setting has the value of its last override, or else of the last file that sets it, or else its default.

In which order the entries of the files and the overrides are gone through does not matter, and neither
does the order of the calls, if the files keep theirs and the overrides theirs. The markers can be used
just when none of the four texts is empty. -/
theorem Layers.build_layers {calls : List Call} {files : List (List (String × Setting))}
    (hfiles : List.Forall₂ FileSets (calls.filterMap Call.file?) files)
    (hproper : ∀ pair ∈ calls.filterMap Call.override?, IsProper pair) :
    ∃ settings, (∀ order, build order calls = .ok settings) ∧
      (∀ name, settings.get name = layeredValue files (calls.filterMap Call.override?) name) ∧
      (∀ other, other.filterMap Call.file? = calls.filterMap Call.file? →
        other.filterMap Call.override? = calls.filterMap Call.override? →
        ∀ order, build order other = .ok settings) ∧
      ((∃ markers, settings.usableMarkers = .ok markers) ↔
        ∀ role, settings.markers.get role ≠ "") := by
  obtain ⟨settings, hbuilt, hvalues⟩ := exists_build .asWritten hfiles hproper
  have hany (order : VisitingOrder) : build order calls = .ok settings := by
    obtain ⟨visited, hvisited, hsame⟩ := exists_build order hfiles hproper
    have hequal : visited = settings :=
      Settings.ext_get fun name => (hsame name).trans (hvalues name).symm
    rw [hvisited, hequal]
  exact ⟨settings, hany, hvalues,
    fun other hsameFiles hsameOverrides order =>
      (build_of_interleaving order hsameFiles hsameOverrides).trans (hany order),
    settings.exists_usableMarkers_iff⟩

/-- A file with tables, one with paths, and overrides before and behind them. A table that sets some of
the markers leaves the others, a later file makes an empty marker usable again, and an override beats a
file that is added after it. -/
theorem Layers.build_layers_partial :
    let tables := "[markers]\nopen=\"<\"\nclose=\"\"\n[spin]\ncount=3"
    let paths := "markers.close=\"]\"\n\"spin.strict\"=true"
    let calls : List Call := [.override "markers.open" (.text "["), .file (some tables),
      .override "spin.count" (.integer 5), .file (some paths)]
    ∃ settings, (∀ order, build order calls = .ok settings) ∧
      SettingName.all.map settings.get = [.text "[", .text "]", .text "|", .text "~",
        .boolean true, .boolean false, .boolean true, .integer 5] ∧
      ∃ markers, settings.usableMarkers = .ok markers := by
  intro tables paths calls
  have htables : FileSets (some tables) [("markers.open", .text "<"), ("markers.close", .text ""),
      ("spin.count", .integer 3)] := by
    refine ⟨tables, _, rfl, ?_, ⟨_, .cons (.table .markers [(.marker .opening, .text "<"),
      (.marker .closing, .text "")] ?_) (.cons (.table .spin [(.count, .integer 3)] ?_) .nil), rfl⟩,
      by decide⟩
    · decide +kernel
    · simp [SettingName.part, SettingName.Fits]
    · exact List.forall_mem_singleton.mpr ⟨rfl, UInt64.ofNat 3, rfl⟩
  have hpaths : FileSets (some paths) [("markers.close", .text "]"),
      ("spin.strict", .boolean true)] := by
    refine ⟨paths, _, rfl, ?_, ⟨_, .cons (.table .markers [(.marker .closing, .text "]")] ?_)
      (.cons (.path .strict (.boolean true) ⟨true, rfl⟩) .nil), rfl⟩, by decide⟩
    · decide +kernel
    · simp [SettingName.part, SettingName.Fits]
  have hproper : ∀ pair ∈ calls.filterMap Call.override?, IsProper pair := by
    intro pair hpair
    rcases List.mem_pair.mp hpair with rfl | rfl
    · exact ⟨.marker .opening, rfl, "[", rfl⟩
    · exact ⟨.count, rfl, UInt64.ofNat 5, rfl⟩
  obtain ⟨settings, hbuilt, hvalues, -, husable⟩ :=
    @build_layers calls _ (.cons htables (.cons hpaths .nil)) hproper
  have hall : SettingName.all.map settings.get = [.text "[", .text "]", .text "|", .text "~",
      .boolean true, .boolean false, .boolean true, .integer 5] := by
    rw [funext hvalues]
    rfl
  refine ⟨settings, hbuilt, hall, husable.mpr fun role => ?_⟩
  simp only [SettingName.all, Role.all, Settings.get, List.map_cons, List.cons_append,
    List.cons.injEq, Setting.text.injEq] at hall
  cases role <;> simp [hall]

end Spintax
