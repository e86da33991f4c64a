import Mathlib.Data.Finset.Sort
import Mathlib.Data.String.Basic
import Spintax.Decoding
import Spintax.Proofs.LastValues

/-!
# The ways to a marker set

A marker set is made of four texts, of pairs of key and text, or of a JSON value, which is read in two
ways: loosely, as an object, and strictly, as an object or an array. All ways accept the same: four
texts, none of them empty, each under the key of its role or at its place in declaration order, and
what they make is the set of these texts.

Each way to build a set has a relation with one case for every fault and one for success. A case says
what its fault is about and which faults come before it, so that inputs with several faults have one
answer.
-/

namespace Spintax

/-- A key is none of the four when it is no role's. -/
theorem Role.ofKey?_eq_none_iff {text : String} :
    Role.ofKey? text = none ↔ ∀ role : Role, text ≠ role.key := by
  constructor
  · rintro hnone role rfl
    cases hnone.symm.trans (Role.ofKey?_key role)
  · intro hother
    by_contra hsome
    obtain ⟨role, hrole⟩ := Option.ne_none_iff_exists'.mp hsome
    exact hother role (Role.eq_key_of_ofKey? hrole)

/-- No two roles have the same key. -/
theorem Role.key_injective : Function.Injective Role.key := fun first second hkey => by
  have hfirst := Role.ofKey?_key first
  rw [hkey, Role.ofKey?_key] at hfirst
  exact (Option.some.inj hfirst).symm

/-- The members of an object of texts. -/
def Json.textMembers (pairs : List (String × String)) : List (String × Json) :=
  pairs.map fun pair => (pair.1, .string pair.2)

/-- The members of an object are all texts, or there is a first one that is not. -/
theorem Json.textMembers_cases (members : List (String × Json)) :
    (∃ pairs, members = textMembers pairs) ∨
      ∃ pairs key value after, (∀ text, value ≠ .string text) ∧
        members = textMembers pairs ++ (key, value) :: after := by
  induction members with
  | nil => exact .inl ⟨[], rfl⟩
  | cons member members ih =>
    obtain ⟨key, value⟩ := member
    by_cases htext : ∃ text, value = .string text
    · obtain ⟨text, rfl⟩ := htext
      rcases ih with ⟨pairs, rfl⟩ | ⟨pairs, culprit, other, after, hother, rfl⟩
      · exact .inl ⟨(key, text) :: pairs, rfl⟩
      · exact .inr ⟨(key, text) :: pairs, culprit, other, after, hother, rfl⟩
    · exact .inr ⟨[], key, value, members, fun text heq => htext ⟨text, heq⟩, rfl⟩

/-- Members made of texts have the names of the texts. -/
theorem Json.map_fst_textMembers (pairs : List (String × String)) :
    (textMembers pairs).map Prod.fst = pairs.map Prod.fst := by
  rw [textMembers, List.map_map]
  rfl

/-- Texts under distinct names make a distinct object. -/
theorem Json.distinct_textMembers {pairs : List (String × String)}
    (hnodup : (pairs.map Prod.fst).Nodup) : (Json.object (textMembers pairs)).Distinct := by
  refine .object (by rwa [map_fst_textMembers]) fun member hmember => ?_
  obtain ⟨pair, -, rfl⟩ := List.mem_map.mp hmember
  exact .string pair.2

/-- The pairs of members that are all texts; the first that is no text is refused. -/
def Json.textsOf (refuse : String → Json.Kind → Refusal) :
    List (String × Json) → Except Refusal (List (String × String))
  | [] => .ok []
  | (key, .string text) :: rest => (textsOf refuse rest).map ((key, text) :: ·)
  | (key, other) :: _ => .error (refuse key other.kind)

/-- Members made of texts are read as these texts. -/
theorem Json.textsOf_textMembers (refuse : String → Json.Kind → Refusal)
    (pairs : List (String × String)) : textsOf refuse (textMembers pairs) = .ok pairs := by
  induction pairs with
  | nil => rfl
  | cons pair pairs ih =>
    change (textsOf refuse (textMembers pairs)).map (pair :: ·) = .ok (pair :: pairs)
    rw [ih, Except.map]

/-- The first member that is no text is reported. -/
theorem Json.textsOf_of_not_string {value : Json} (refuse : String → Json.Kind → Refusal)
    (pairs : List (String × String)) (key : String) (after : List (String × Json))
    (hvalue : ∀ text, value ≠ .string text) :
    textsOf refuse (textMembers pairs ++ (key, value) :: after) =
      .error (refuse key value.kind) := by
  induction pairs with
  | nil =>
    cases value with
    | string text => exact absurd rfl (hvalue text)
    | _ => rfl
  | cons pair pairs ih =>
    change (textsOf refuse (textMembers pairs ++ (key, value) :: after)).map (pair :: ·) = _
    rw [ih, Except.map]

/-- Every key of the pairs is a role's. -/
def KeysKnown (pairs : List (String × String)) : Prop :=
  ∀ key ∈ pairs.map Prod.fst, ∃ role : Role, key = role.key

/-- The roles that no pair has a key for, in declaration order. -/
def missingRoles (pairs : List (String × String)) : List Role :=
  Role.all.filter (·.key ∉ pairs.map Prod.fst)

namespace MarkerTexts

variable {texts : MarkerTexts} {pairs : List (String × String)} {value : Json}

/-- The four texts under their keys, in declaration order. -/
def entries (texts : MarkerTexts) : List (String × String) :=
  Role.all.map fun role => (role.key, texts.get role)

/-- The object of the four texts, with its keys in any order. -/
def IsObject (texts : MarkerTexts) (value : Json) : Prop :=
  ∃ pairs : List (String × String), pairs.Perm texts.entries ∧ value = .object (Json.textMembers pairs)

/-- The array of the four texts in declaration order. -/
def IsArray (texts : MarkerTexts) (value : Json) : Prop :=
  value = .array (texts.toList.map Json.string)

/-- The keys of pairs are those of the four roles, and the last value of each is the text. -/
structure GivenBy (texts : MarkerTexts) (pairs : List (String × String)) : Prop where
  known : KeysKnown pairs
  lastValue?_eq : ∀ role : Role, Entries.lastValue? pairs role.key = some (texts.get role)

/-- The entries are the keys of the roles with their texts. -/
theorem mem_entries_iff {key text : String} :
    (key, text) ∈ texts.entries ↔ ∃ role : Role, key = role.key ∧ text = texts.get role := by
  simp only [MarkerTexts.entries, List.mem_map, Prod.mk.injEq]
  exact exists_congr fun role => by
    rw [and_iff_right (Role.mem_all role), eq_comm, @eq_comm _ (texts.get role)]

/-- The entries have distinct keys. -/
theorem nodup_entries (texts : MarkerTexts) : (texts.entries.map Prod.fst).Nodup := by
  have hkeys : texts.entries.map Prod.fst = Role.all.map Role.key := List.map_map
  rw [hkeys]
  decide

/-- Pairs with distinct keys give the four texts just when they are the four pairs in some order. -/
theorem givenBy_iff_perm (hnodup : (pairs.map Prod.fst).Nodup) :
    texts.GivenBy pairs ↔ pairs.Perm texts.entries := by
  constructor
  · intro hgiven
    rw [List.perm_ext_iff_of_nodup hnodup.of_map texts.nodup_entries.of_map]
    rintro ⟨key, text⟩
    rw [mem_entries_iff, ← Entries.lastValue?_eq_some_iff hnodup]
    constructor
    · intro hlast
      have hkey : key ∈ pairs.map Prod.fst :=
        List.mem_map_of_mem ((Entries.lastValue?_eq_some_iff hnodup).mp hlast)
      obtain ⟨role, rfl⟩ := hgiven.known key hkey
      exact ⟨role, rfl, Option.some.inj (hlast.symm.trans (hgiven.lastValue?_eq role))⟩
    · rintro ⟨role, rfl, rfl⟩
      exact hgiven.lastValue?_eq role
  · intro hperm
    refine ⟨fun key hkey => ?_, fun role => ?_⟩
    · obtain ⟨⟨_, text⟩, hpair, rfl⟩ := List.mem_map.mp hkey
      obtain ⟨role, hrole, -⟩ := mem_entries_iff.mp (hperm.mem_iff.mp hpair)
      exact ⟨role, hrole⟩
    · rw [Entries.lastValue?_eq_some_iff hnodup, hperm.mem_iff, mem_entries_iff]
      exact ⟨role, rfl, rfl⟩

/-- The object of the four texts is an object of pairs that give the texts. -/
theorem isObject_iff (hdistinct : value.Distinct) :
    texts.IsObject value ↔ ∃ pairs, texts.GivenBy pairs ∧ value = .object (Json.textMembers pairs) := by
  refine exists_congr fun pairs => and_congr_left ?_
  rintro rfl
  cases hdistinct with
  | object hnodup _ =>
    rw [Json.map_fst_textMembers] at hnodup
    exact (givenBy_iff_perm hnodup).symm

end MarkerTexts

namespace Markers

variable {texts : MarkerTexts} {pairs : List (String × String)} {value : Json}
  {outcome : Except Refusal Markers} {markers : Markers}

/-- What four texts make: their set, if none is empty, or else the first empty one is the fault. -/
inductive FromTexts (texts : MarkerTexts) : Except Refusal Markers → Prop
  | empty {before after : List Role} {role : Role} (hall : Role.all = before ++ role :: after)
      (hbefore : ∀ other ∈ before, texts.get other ≠ "") (hempty : texts.get role = "") :
      FromTexts texts (.error (.emptyMarker role))
  | accepted {markers : Markers} (htexts : markers.texts = texts) : FromTexts texts (.ok markers)

/-- What pairs make. The first fault that applies is reported: all keys that are no role's, sorted and
each once; all roles without a key, in declaration order; the first empty text. Of each key the last
value counts. -/
inductive FromPairs (pairs : List (String × String)) : Except Refusal Markers → Prop
  | unknown {keys : List String} (hkeys : keys ≠ []) (hsorted : keys.Pairwise (· < ·))
      (hmem : ∀ key, key ∈ keys ↔ key ∈ pairs.map Prod.fst ∧ ∀ role : Role, key ≠ role.key) :
      FromPairs pairs (.error (.unknownMarkers keys))
  | missing (hknown : KeysKnown pairs) (hmissing : missingRoles pairs ≠ []) :
      FromPairs pairs (.error (.missingMarkers (missingRoles pairs)))
  | given {texts : MarkerTexts} {outcome : Except Refusal Markers}
      (hgiven : texts.GivenBy pairs) (htexts : FromTexts texts outcome) :
      FromPairs pairs outcome

/-- What a loosely typed value makes: it has to be an object, and all its members texts, before the
keys and the texts are looked at. -/
inductive FromJson : Json → Except Refusal Markers → Prop
  | notObject {value : Json} (hvalue : ∀ members, value ≠ .object members) :
      FromJson value (.error (.markersNotObject value.kind))
  | notString {pairs : List (String × String)} {key : String} {value : Json}
      {after : List (String × Json)} (hvalue : ∀ text, value ≠ .string text) :
      FromJson (.object (Json.textMembers pairs ++ (key, value) :: after))
        (.error (.markerNotString key value.kind))
  | texts {pairs : List (String × String)} {outcome : Except Refusal Markers}
      (hpairs : FromPairs pairs outcome) : FromJson (.object (Json.textMembers pairs)) outcome

section Texts

/-- Texts of which one is empty are refused for the first such role. -/
theorem ofTexts_of_some {role : Role} (hempty : texts.firstEmpty? = some role) :
    ofTexts texts = .error (.emptyMarker role) := by
  unfold ofTexts
  split
  · next other hother => rw [Option.some.inj (hempty.symm.trans hother)]
  · next hnone => cases hempty.symm.trans hnone

/-- The texts of a marker set make this set again. -/
theorem ofTexts_texts (markers : Markers) : ofTexts markers.texts = .ok markers := by
  unfold ofTexts
  split
  · next role hempty =>
    cases hempty.symm.trans (MarkerTexts.firstEmpty?_eq_none_iff.mpr markers.nonempty)
  · rfl

/-- What comes of texts is described in full. -/
theorem ofTexts_eq_iff : ofTexts texts = outcome ↔ FromTexts texts outcome := by
  constructor
  · rintro rfl
    cases hempty : texts.firstEmpty? with
    | some role =>
      obtain ⟨hrole, before, after, hall, hbefore⟩ := List.find?_eq_some_iff_append.mp hempty
      rw [ofTexts_of_some hempty]
      exact .empty hall (fun other hother => by simpa using hbefore other hother) (by simpa using hrole)
    | none =>
      rw [ofTexts_texts ⟨texts, MarkerTexts.firstEmpty?_eq_none_iff.mp hempty⟩]
      exact .accepted rfl
  · rintro (⟨hall, hbefore, hempty⟩ | rfl)
    · refine ofTexts_of_some (List.find?_eq_some_iff_append.mpr ⟨by simpa using hempty, _, _, hall, ?_⟩)
      exact fun other hother => by simpa using hbefore other hother
    · exact ofTexts_texts _

/-- Four texts are accepted just when they are those of the set that is made. -/
theorem ofTexts_eq_ok_iff : ofTexts texts = .ok markers ↔ markers.texts = texts := by
  rw [ofTexts_eq_iff]
  exact ⟨fun hmade => by cases hmade; assumption, .accepted⟩

/-- A set is made of its own texts and no others. -/
theorem exists_texts_iff {fits : MarkerTexts → Prop} :
    (∃ texts, fits texts ∧ ofTexts texts = .ok markers) ↔ fits markers.texts := by
  simp only [ofTexts_eq_ok_iff, exists_eq_right']

end Texts

section Pairs

/-- The keys that are no role's, as they are collected. -/
def unknownKeys (pairs : List (String × String)) : List String :=
  (Entries.ofList pairs).names.filter fun key => (Role.ofKey? key).isNone

/-- Each unknown key is listed once. -/
theorem nodup_unknownKeys (pairs : List (String × String)) : (unknownKeys pairs).Nodup :=
  (Entries.nodup_names_ofList pairs).filter _

/-- A key is unknown just when it is given and is that of no role. -/
theorem mem_unknownKeys_iff {key : String} :
    key ∈ unknownKeys pairs ↔ key ∈ pairs.map Prod.fst ∧ ∀ role : Role, key ≠ role.key := by
  rw [unknownKeys, List.mem_filter, Entries.mem_names_ofList, Option.isNone_iff_eq_none,
    Role.ofKey?_eq_none_iff]

/-- There are no unknown keys just when all keys are known. -/
theorem unknownKeys_eq_nil_iff : unknownKeys pairs = [] ↔ KeysKnown pairs := by
  simp only [List.eq_nil_iff_forall_not_mem, mem_unknownKeys_iff, KeysKnown]
  push Not
  rfl

/-- There are no missing roles just when every role has a value. -/
theorem missingRoles_eq_nil_iff :
    missingRoles pairs = [] ↔ ∀ role : Role, Entries.lastValue? pairs role.key ≠ none := by
  simp only [missingRoles, List.filter_eq_nil_iff, ne_eq, Entries.lastValue?_eq_none_iff,
    decide_eq_true_iff]
  exact ⟨fun hmissing role => hmissing role (Role.mem_all role), fun hvalue role _ => hvalue role⟩

/-- Building from pairs, said of the pairs themselves and not of what is collected. -/
theorem ofPairs_eq (pairs : List (String × String)) :
    ofPairs pairs =
      if unknownKeys pairs ≠ [] then
        .error (.unknownMarkers ((unknownKeys pairs).mergeSort fun a b => decide (a ≤ b)))
      else if missingRoles pairs ≠ [] then
        .error (.missingMarkers (missingRoles pairs))
      else
        ofTexts (.ofRoles fun role => (Entries.lastValue? pairs role.key).getD "") := by
  have hmissing : Role.all.filter (fun role => (Entries.lastValue? pairs role.key).isNone) =
      missingRoles pairs := List.filter_congr fun role _ => by
    rw [Bool.eq_iff_iff, Option.isNone_iff_eq_none, Entries.lastValue?_eq_none_iff, decide_eq_true_iff]
  simp only [ofPairs, Entries.find?_ofList, hmissing]
  rfl

/-- Keys that are no role's are reported before anything else. -/
theorem ofPairs_of_unknown {keys : List String} (hkeys : keys ≠ []) (hsorted : keys.Pairwise (· < ·))
    (hmem : ∀ key, key ∈ keys ↔ key ∈ pairs.map Prod.fst ∧ ∀ role : Role, key ≠ role.key) :
    ofPairs pairs = .error (.unknownMarkers keys) := by
  have hperm : (unknownKeys pairs).Perm keys := by
    rw [List.perm_ext_iff_of_nodup (nodup_unknownKeys pairs) hsorted.nodup]
    exact fun key => mem_unknownKeys_iff.trans (hmem key).symm
  have hsort := List.Perm.eq_of_pairwise (fun a b _ _ => le_antisymm)
    (List.pairwise_mergeSort' (· ≤ ·) _) (hsorted.imp le_of_lt)
    ((List.mergeSort_perm _ _).trans hperm)
  have hunknown : unknownKeys pairs ≠ [] := fun hnil => hkeys (List.perm_nil.mp (hnil ▸ hperm.symm))
  rw [ofPairs_eq, if_pos hunknown, hsort]

/-- Roles without a key are reported next. -/
theorem ofPairs_of_missing (hknown : KeysKnown pairs) (hmissing : missingRoles pairs ≠ []) :
    ofPairs pairs = .error (.missingMarkers (missingRoles pairs)) := by
  rw [ofPairs_eq, if_neg (not_not_intro (unknownKeys_eq_nil_iff.mpr hknown)), if_pos hmissing]

/-- Pairs that give four texts make what the texts make. -/
theorem ofPairs_of_givenBy (hgiven : texts.GivenBy pairs) : ofPairs pairs = ofTexts texts := by
  have hmissing : missingRoles pairs = [] := missingRoles_eq_nil_iff.mpr fun role =>
    Option.ne_none_iff_exists'.mpr ⟨_, hgiven.lastValue?_eq role⟩
  rw [ofPairs_eq, if_neg (not_not_intro (unknownKeys_eq_nil_iff.mpr hgiven.known)),
    if_neg (not_not_intro hmissing)]
  simp only [hgiven.lastValue?_eq, Option.getD_some, MarkerTexts.ofRoles_get]

/-- Pairs with the keys of all roles, and no others, give four texts. -/
theorem exists_givenBy (hknown : KeysKnown pairs) (hmissing : missingRoles pairs = []) :
    ∃ texts : MarkerTexts, texts.GivenBy pairs := by
  choose text htext using fun role =>
    Option.ne_none_iff_exists'.mp (missingRoles_eq_nil_iff.mp hmissing role)
  exact ⟨.ofRoles text, hknown, fun role => by rw [htext, MarkerTexts.get_ofRoles]⟩

/-- Pairs make something: one of the cases applies. -/
theorem exists_fromPairs (pairs : List (String × String)) : ∃ outcome, FromPairs pairs outcome := by
  by_cases hknown : KeysKnown pairs
  · by_cases hmissing : missingRoles pairs = []
    · obtain ⟨texts, hgiven⟩ := exists_givenBy hknown hmissing
      exact ⟨_, .given hgiven (ofTexts_eq_iff.mp rfl)⟩
    · exact ⟨_, .missing hknown hmissing⟩
  · let keys := (unknownKeys pairs).toFinset.sort (· ≤ ·)
    have hmem (key : String) : key ∈ keys ↔ key ∈ unknownKeys pairs := by
      rw [Finset.mem_sort, List.mem_toFinset]
    obtain ⟨key, hkey⟩ := List.exists_mem_of_ne_nil _ fun hnil => hknown (unknownKeys_eq_nil_iff.mp hnil)
    exact ⟨_, .unknown (List.ne_nil_of_mem ((hmem key).mpr hkey))
      (Finset.sortedLT_sort _).pairwise fun key => (hmem key).trans mem_unknownKeys_iff⟩

/-- What comes of pairs is described in full. -/
theorem ofPairs_eq_iff : ofPairs pairs = outcome ↔ FromPairs pairs outcome := by
  have hcases {outcome : Except Refusal Markers} (hmade : FromPairs pairs outcome) :
      ofPairs pairs = outcome := by
    cases hmade with
    | unknown hkeys hsorted hmem => exact ofPairs_of_unknown hkeys hsorted hmem
    | missing hknown hmissing => exact ofPairs_of_missing hknown hmissing
    | given hgiven htexts =>
      rw [ofPairs_of_givenBy hgiven, ofTexts_eq_iff.mpr htexts]
  refine ⟨?_, hcases⟩
  rintro rfl
  obtain ⟨outcome, hmade⟩ := exists_fromPairs pairs
  exact (hcases hmade).symm ▸ hmade

/-- Only the last values of the keys count. -/
theorem FromPairs.congr {other : List (String × String)} (hmade : FromPairs pairs outcome)
    (hlast : ∀ key, Entries.lastValue? pairs key = Entries.lastValue? other key) :
    FromPairs other outcome := by
  have hmem (key : String) : key ∈ pairs.map Prod.fst ↔ key ∈ other.map Prod.fst := by
    rw [← not_iff_not, ← Entries.lastValue?_eq_none_iff, hlast, Entries.lastValue?_eq_none_iff]
  have hknown (hknown : KeysKnown pairs) : KeysKnown other :=
    fun key hkey => hknown key ((hmem key).mpr hkey)
  cases hmade with
  | unknown hkeys hsorted hunknown =>
    exact .unknown hkeys hsorted fun key => (hunknown key).trans (and_congr_left fun _ => hmem key)
  | missing hall hmissing =>
    have hroles : missingRoles pairs = missingRoles other :=
      List.filter_congr fun role _ => decide_eq_decide.mpr (not_congr (hmem role.key))
    exact hroles ▸ .missing (hknown hall) (hroles ▸ hmissing)
  | given hgiven htexts =>
    exact .given ⟨hknown hgiven.known, fun role =>
      (hlast role.key).symm.trans (hgiven.lastValue?_eq role)⟩ htexts

/-- Pairs with the same last values make the same markers. -/
theorem ofPairs_eq_of_lastValue? {other : List (String × String)}
    (hlast : ∀ key, Entries.lastValue? pairs key = Entries.lastValue? other key) :
    ofPairs pairs = ofPairs other :=
  (ofPairs_eq_iff.mpr ((ofPairs_eq_iff.mp rfl).congr hlast)).symm

/-- Pairs are accepted just when they give the texts of the set that is made. -/
theorem ofPairs_eq_ok_iff : ofPairs pairs = .ok markers ↔ markers.texts.GivenBy pairs := by
  constructor
  · intro hmade
    cases ofPairs_eq_iff.mp hmade with
    | given hgiven htexts =>
      cases htexts
      subst_vars
      exact hgiven
  · intro hgiven
    rw [ofPairs_of_givenBy hgiven, ofTexts_texts]

end Pairs

section Loose

/-- The texts of the members are read as those of any object, with a refusal of their own. -/
theorem stringMembers_eq (members : List (String × Json)) :
    stringMembers members = Json.textsOf .markerNotString members := by
  fun_induction stringMembers members with
  | case1 => rfl
  | case2 key text rest ih => rw [ih, Json.textsOf]
  | case3 key other rest hother => rw [Json.textsOf]; exact hother

/-- An object of texts makes what its pairs make. -/
theorem ofJson_textMembers (pairs : List (String × String)) :
    ofJson (.object (Json.textMembers pairs)) = ofPairs pairs := by
  rw [ofJson, stringMembers_eq, Json.textsOf_textMembers, Except.bind]

/-- A value makes something: one of the cases applies. -/
theorem fromJson_ofJson (value : Json) : FromJson value (ofJson value) := by
  by_cases hobject : ∃ members, value = .object members
  · obtain ⟨members, rfl⟩ := hobject
    rcases Json.textMembers_cases members with ⟨pairs, rfl⟩ | ⟨pairs, key, other, after, hother, rfl⟩
    · rw [ofJson_textMembers]
      exact .texts (ofPairs_eq_iff.mp rfl)
    · rw [ofJson, stringMembers_eq, Json.textsOf_of_not_string _ pairs key after hother]
      exact .notString hother
  · have hvalue (members : List (String × Json)) : value ≠ .object members :=
      fun heq => hobject ⟨members, heq⟩
    have hrefused := FromJson.notObject hvalue
    cases value with
    | object members => exact absurd rfl (hvalue members)
    | _ => exact hrefused

/-- What comes of a value is described in full. -/
theorem ofJson_eq_iff : ofJson value = outcome ↔ FromJson value outcome := by
  constructor
  · rintro rfl
    exact fromJson_ofJson value
  · rintro (hvalue | hvalue | hpairs)
    · cases value with
      | object members => exact absurd rfl (hvalue members)
      | _ => rfl
    · rw [ofJson, stringMembers_eq, Json.textsOf_of_not_string _ _ _ _ hvalue, Except.bind]
    · rw [ofJson_textMembers, ofPairs_eq_iff.mpr hpairs]

/-- A loosely typed value is accepted just when it is the object of the texts of the set. -/
theorem ofJson_eq_ok_iff (hdistinct : value.Distinct) :
    ofJson value = .ok markers ↔ markers.texts.IsObject value := by
  rw [MarkerTexts.isObject_iff hdistinct]
  constructor
  · intro hmade
    cases ofJson_eq_iff.mp hmade with
    | texts hpairs => exact ⟨_, ofPairs_eq_ok_iff.mp (ofPairs_eq_iff.mpr hpairs), rfl⟩
  · rintro ⟨pairs, hgiven, rfl⟩
    rw [ofJson_textMembers, ofPairs_eq_ok_iff.mpr hgiven]

end Loose

end Markers

namespace MarkerTexts

variable {texts : MarkerTexts} {value : Json}

/-- A text is decoded just when the value is this text. -/
theorem decodeText_eq_ok_iff {text : String} : value.decodeText = .ok text ↔ value = .string text := by
  cases value <;> simp [Json.decodeText]

/-- Texts by role as pairs of key and text. -/
def keyed (found : List (Role × String)) : List (String × String) :=
  found.map fun entry => (entry.1.key, entry.2)

/-- The text found under the key of a role is the one found for the role. -/
theorem find?_keyed (found : List (Role × String)) (role : Role) :
    Entries.find? role.key (keyed found) = found.lookup role := by
  induction found with
  | nil => rfl
  | cons entry found ih =>
    change (if entry.1.key = role.key then some entry.2 else Entries.find? role.key (keyed found)) = _
    rw [ih, List.lookup_cons]
    by_cases hrole : role = entry.1
    · simp [hrole]
    · rw [if_neg fun hkey => hrole (Role.key_injective hkey.symm), beq_eq_false_iff_ne.mpr hrole]

/-- The keys of roles are known. -/
theorem keysKnown_keyed (found : List (Role × String)) : KeysKnown (keyed found) := by
  intro key hkey
  rw [keyed, List.map_map] at hkey
  obtain ⟨entry, -, rfl⟩ := List.mem_map.mp hkey
  exact ⟨entry.1, rfl⟩

/-- Pairs whose keys are all keys of roles are texts by role. -/
theorem exists_keyed {pairs : List (String × String)}
    (hknown : KeysKnown pairs) :
    ∃ found, pairs = keyed found := by
  induction pairs with
  | nil => exact ⟨[], rfl⟩
  | cons pair pairs ih =>
    obtain ⟨key, text⟩ := pair
    obtain ⟨role, rfl⟩ := hknown key List.mem_cons_self
    obtain ⟨found, rfl⟩ := ih fun key hkey => hknown key (List.mem_cons_of_mem _ hkey)
    exact ⟨(role, text) :: found, rfl⟩

/-- Texts under the keys of roles are decoded to what was found for the roles. -/
theorem decodeMembers_keyed (found : List (Role × String)) :
    decodeMembers (Json.textMembers (keyed found)) = .ok found := by
  induction found with
  | nil => rfl
  | cons entry found ih =>
    change decodeMembers ((entry.1.key, .string entry.2) :: Json.textMembers (keyed found)) = _
    rw [decodeMembers, Role.ofKey?_key]
    simp only [Except.bind_eq_ok_iff, decodeText_eq_ok_iff, Except.pure_eq_ok_iff, ih]
    exact ⟨entry.2, rfl, found, rfl, rfl⟩

/-- The members are read just when they are the texts of the roles that are found. -/
theorem decodeMembers_eq_ok_iff {members : List (String × Json)} {found : List (Role × String)} :
    decodeMembers members = .ok found ↔ members = Json.textMembers (keyed found) := by
  constructor
  · intro hread
    induction members generalizing found with
    | nil =>
      cases hread
      rfl
    | cons member members ih =>
      obtain ⟨name, value⟩ := member
      rw [decodeMembers] at hread
      cases hrole : Role.ofKey? name with
      | none =>
        rw [hrole] at hread
        cases hread
      | some role =>
        rw [hrole] at hread
        obtain ⟨text, htext, hread⟩ := Except.bind_eq_ok_iff.mp hread
        obtain ⟨others, hothers, hread⟩ := Except.bind_eq_ok_iff.mp hread
        cases hread
        rw [ih hothers, decodeText_eq_ok_iff.mp htext, Role.eq_key_of_ofKey? hrole]
        rfl
  · rintro rfl
    exact decodeMembers_keyed found

/-- The texts found make the four texts just when each role's is found. -/
theorem ofRoleTexts_eq_ok_iff {found : List (Role × String)} :
    ofRoleTexts found = .ok texts ↔ ∀ role : Role, found.lookup role = some (texts.get role) := by
  constructor
  · intro hread
    simp only [ofRoleTexts, Except.bind_eq_ok_iff, Except.pure_eq_ok_iff] at hread
    obtain ⟨opening, hopening, closing, hclosing, separator, hseparator, placeholder, hplaceholder,
      rfl⟩ := hread
    rintro (_ | _ | _ | _)
    · split at hopening <;> cases hopening
      assumption
    · split at hclosing <;> cases hclosing
      assumption
    · split at hseparator <;> cases hseparator
      assumption
    · split at hplaceholder <;> cases hplaceholder
      assumption
  · intro htexts
    simp only [ofRoleTexts, htexts]
    rfl

/-- The four texts are read from an object just when it is the object of the texts. -/
theorem decode_object_eq_ok_iff {members : List (String × Json)}
    (hdistinct : (Json.object members).Distinct) :
    decode (.object members) = .ok texts ↔ texts.IsObject (.object members) := by
  rw [isObject_iff hdistinct, decode, Except.bind_eq_ok_iff]
  -- where no key comes twice the first text of a role is its last
  have hvalues {found : List (Role × String)} (hmembers : members = Json.textMembers (keyed found)) :
      ofRoleTexts found = .ok texts ↔ texts.GivenBy (keyed found) := by
    have hnodup : ((keyed found).map Prod.fst).Nodup := by
      cases hdistinct with
      | object hnodup _ => rwa [hmembers, Json.map_fst_textMembers] at hnodup
    simp only [ofRoleTexts_eq_ok_iff, ← find?_keyed, ← Entries.lastValue?_eq_find? hnodup]
    exact ⟨fun htexts => ⟨keysKnown_keyed found, htexts⟩, GivenBy.lastValue?_eq⟩
  constructor
  · rintro ⟨found, hread, htexts⟩
    have hmembers := decodeMembers_eq_ok_iff.mp hread
    exact ⟨keyed found, (hvalues hmembers).mp htexts, congrArg Json.object hmembers⟩
  · rintro ⟨pairs, hgiven, hmembers⟩
    obtain ⟨found, rfl⟩ := exists_keyed hgiven.known
    have hmembers := Json.object.inj hmembers
    exact ⟨found, decodeMembers_eq_ok_iff.mpr hmembers, (hvalues hmembers).mpr hgiven⟩

/-- The four texts are read from an array just when it is the array of the texts. -/
theorem decode_array_eq_ok_iff {items : List Json} :
    decode (.array items) = .ok texts ↔ texts.IsArray (.array items) := by
  have hitem (index : Nat) (text : String) :
      decodeItem items index = .ok text ↔ items[index]? = some (.string text) := by
    unfold decodeItem
    cases items[index]? with
    | none => simp
    | some item => simp [decodeText_eq_ok_iff]
  simp only [decode, Except.bind_eq_ok_iff, hitem]
  constructor
  · rintro ⟨opening, hopening, closing, hclosing, separator, hseparator, placeholder, hplaceholder, hread⟩
    split at hread
    · cases hread
    · next hlength =>
      obtain rfl := Except.pure_eq_ok_iff.mp hread
      refine congrArg Json.array (List.ext_getElem? fun index => ?_)
      match index with
      | 0 => exact hopening
      | 1 => exact hclosing
      | 2 => exact hseparator
      | 3 => exact hplaceholder
      | index + 4 =>
        rw [List.getElem?_eq_none (by omega)]
        rfl
  · intro harray
    obtain rfl := Json.array.inj harray
    exact ⟨_, rfl, _, rfl, _, rfl, _, rfl, rfl⟩

/-- The four texts are read just when the value is the object or the array of the texts. -/
theorem decode_eq_ok_iff (hdistinct : value.Distinct) :
    decode value = .ok texts ↔ texts.IsObject value ∨ texts.IsArray value := by
  cases value with
  | object members =>
    rw [decode_object_eq_ok_iff hdistinct, or_iff_left fun harray => by cases harray]
  | array items =>
    rw [decode_array_eq_ok_iff, or_iff_right fun ⟨pairs, _, hobject⟩ => by cases hobject]
  | _ =>
    refine iff_of_false (fun hread => by cases hread) ?_
    rintro (⟨pairs, -, hobject⟩ | harray)
    · cases hobject
    · cases harray

end MarkerTexts

namespace Markers

variable {value : Json} {markers : Markers}

/-- A value is accepted strictly just when it is the object or the array of the texts of the set. -/
theorem decode_eq_ok_iff (hdistinct : value.Distinct) :
    decode value = .ok markers ↔ markers.texts.IsObject value ∨ markers.texts.IsArray value := by
  rw [decode, Except.bind_eq_ok_iff]
  simp only [MarkerTexts.decode_eq_ok_iff hdistinct]
  refine Iff.trans (exists_congr fun texts => and_congr_right fun _ => ?_) exists_texts_iff
  cases ofTexts texts with
  | ok made => rw [Except.pure_eq_ok_iff, Except.ok.injEq]
  | error refusal => exact iff_of_false (fun hmade => by cases hmade) fun hmade => by cases hmade

/-- However a marker set is made, the same is accepted.

Four texts that are not empty make a set; an object or pairs make it in any order of the keys. What is wrong
with them is the first of the faults in a fixed order. -/
theorem construction_agrees (hdistinct : value.Distinct) :
    (∀ texts markers, ofTexts texts = .ok markers ↔
      (∀ role, texts.get role ≠ "") ∧ markers.texts = texts) ∧
    (∀ markers, ofJson value = .ok markers ↔
      ∃ texts : MarkerTexts, texts.IsObject value ∧ ofTexts texts = .ok markers) ∧
    (∀ markers, decode value = .ok markers ↔
      ∃ texts : MarkerTexts, (texts.IsObject value ∨ texts.IsArray value) ∧
        ofTexts texts = .ok markers) ∧
    (∀ pairs markers, ofPairs pairs = .ok markers ↔
      ∃ texts : MarkerTexts, texts.GivenBy pairs ∧ ofTexts texts = .ok markers) ∧
    (∀ pairs other : List (String × String),
      (∀ key, Entries.lastValue? pairs key = Entries.lastValue? other key) →
      ofPairs pairs = ofPairs other) ∧
    (∀ pairs other : List (String × String), (pairs.map Prod.fst).Nodup → pairs.Perm other →
      ofPairs pairs = ofPairs other) ∧
    (∀ pairs outcome, ofPairs pairs = outcome ↔ FromPairs pairs outcome) ∧
    ∀ outcome, ofJson value = outcome ↔ FromJson value outcome := by
  refine ⟨fun texts markers => ?_, fun markers => ?_, fun markers => ?_, fun pairs markers => ?_,
    fun pairs other => ofPairs_eq_of_lastValue?, fun pairs other hnodup hperm => ?_,
    fun pairs outcome => ofPairs_eq_iff, fun outcome => ofJson_eq_iff⟩
  · rw [ofTexts_eq_ok_iff]
    constructor
    · rintro rfl
      exact ⟨markers.nonempty, rfl⟩
    · exact And.right
  · rw [exists_texts_iff, ofJson_eq_ok_iff hdistinct]
  · rw [exists_texts_iff, decode_eq_ok_iff hdistinct]
  · rw [exists_texts_iff, ofPairs_eq_ok_iff]
  · exact ofPairs_eq_of_lastValue? (Entries.lastValue?_eq_of_perm hnodup hperm)

/-- A set is read from its object with the keys in another order. -/
theorem construction_agrees_shuffled :
    let value := Json.object (Json.textMembers
      [("placeholder", "$"), ("close", "]"), ("open", "["), ("separator", "#")])
    let markers : Markers := ⟨⟨"[", "]", "#", "$"⟩, fun role => by cases role <;> decide⟩
    value.Distinct ∧ ofJson value = .ok markers ∧ decode value = .ok markers := by
  intro value markers
  have hdistinct : value.Distinct := Json.distinct_textMembers (by decide)
  have hobject : markers.texts.IsObject value := ⟨_, by decide, rfl⟩
  have htexts : ofTexts markers.texts = .ok markers := ofTexts_texts markers
  obtain ⟨-, hloose, hstrict, -⟩ := construction_agrees hdistinct
  exact ⟨hdistinct, (hloose markers).mpr ⟨_, hobject, htexts⟩,
    (hstrict markers).mpr ⟨_, .inl hobject, htexts⟩⟩

end Markers

end Spintax
