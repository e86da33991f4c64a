import Spintax.Document
import Spintax.Proofs.MarkerInput

/-!
# Reading documents

A value is read as a document by four checks in a fixed order: it has to be an object in which only
the names of a document occur, the template has to be a text, the placeholders an object of texts, and
the markers the object of a marker set. The order of the checks is not that of the members, so a value
with several faults has one answer, which blames the part of the first check that fails.

A part is looked up by its name, and no name occurs twice. That is why the order of the members leaves
no trace, except that of several unknown names the first is told. The entries of the placeholders keep
their order, since substitution follows it.
-/

namespace Spintax

namespace Table

variable {table : Table} {value : Json} {refusal : Refusal}

/-- The object of the entries of a table, in their order. -/
def IsObject (table : Table) (value : Json) : Prop :=
  value = .object (Json.textMembers table.entries)

/-- Why a value makes no table: it is no object, or it has a first entry that is no text. -/
inductive Refused : Json → Refusal → Prop
  | notObject {value : Json} (hvalue : ∀ members, value ≠ .object members) :
      Refused value (.placeholdersNotObject value.kind)
  | notString {pairs : List (String × String)} {name : String} {value : Json}
      {after : List (String × Json)} (hvalue : ∀ text, value ≠ .string text) :
      Refused (.object (Json.textMembers pairs ++ (name, value) :: after))
        (.valueNotString name value.kind)

/-- The texts of the members are read as those of any object, with a refusal of their own. -/
theorem stringMembers_eq (members : List (String × Json)) :
    stringMembers members = Json.textsOf .valueNotString members := by
  fun_induction stringMembers members with
  | case1 => rfl
  | case2 name text rest ih => rw [ih, Json.textsOf]
  | case3 name other rest hother => rw [Json.textsOf]; exact hother

/-- An object of texts makes the table that is collected from its entries. -/
theorem ofJson_textMembers (pairs : List (String × String)) :
    ofJson (.object (Json.textMembers pairs)) = .ok (ofPairs pairs) := by
  rw [ofJson, stringMembers_eq, Json.textsOf_textMembers, Except.map]

/-- A value that no table is read from is refused. -/
theorem ofJson_of_refused (hrefused : Refused value refusal) : ofJson value = .error refusal := by
  cases hrefused with
  | notObject hvalue =>
    cases value with
    | object members => exact absurd rfl (hvalue members)
    | _ => rfl
  | notString hvalue =>
    rw [ofJson, stringMembers_eq, Json.textsOf_of_not_string _ _ _ _ hvalue, Except.map]

/-- A value is an object of texts, or it is refused. -/
theorem textMembers_or_refused (value : Json) :
    (∃ pairs, value = .object (Json.textMembers pairs)) ∨ ∃ refusal, Refused value refusal := by
  by_cases hobject : ∃ members, value = .object members
  · obtain ⟨members, rfl⟩ := hobject
    rcases Json.textMembers_cases members with ⟨pairs, rfl⟩ | ⟨pairs, name, other, after, hother, rfl⟩
    · exact .inl ⟨pairs, rfl⟩
    · exact .inr ⟨_, .notString hother⟩
  · exact .inr ⟨_, .notObject fun members heq => hobject ⟨members, heq⟩⟩

/-- A table is refused just when no table is read from the value. -/
theorem ofJson_eq_error_iff : ofJson value = .error refusal ↔ Refused value refusal := by
  refine ⟨fun hrefusal => ?_, ofJson_of_refused⟩
  rcases textMembers_or_refused value with ⟨pairs, rfl⟩ | ⟨other, hother⟩
  · cases hrefusal.symm.trans (ofJson_textMembers pairs)
  · cases hrefusal.symm.trans (ofJson_of_refused hother)
    exact hother

/-- A refusal of a table is about the placeholders. -/
theorem Refused.field_eq (hrefused : Refused value refusal) : refusal.field = .placeholders := by
  cases hrefused <;> rfl

/-- A value makes a table just when it is the object of its entries in their order. -/
theorem ofJson_eq_ok_iff (hdistinct : value.Distinct) :
    ofJson value = .ok table ↔ table.IsObject value := by
  constructor
  · intro htable
    rcases textMembers_or_refused value with ⟨pairs, rfl⟩ | ⟨refusal, hrefused⟩
    · cases hdistinct with
      | object hnodup _ =>
        rw [Json.map_fst_textMembers] at hnodup
        rw [ofJson_textMembers] at htable
        rw [IsObject, ← Except.ok.inj htable, entries_ofPairs hnodup]
    · cases htable.symm.trans (ofJson_of_refused hrefused)
  · rintro rfl
    rw [ofJson_textMembers, ofPairs_entries]

end Table

/-- What refuses a marker set blames the markers. -/
theorem Markers.field_of_fromJson {value : Json} {refusal : Refusal}
    (hmade : FromJson value (.error refusal)) : refusal.field = .markers := by
  cases hmade with
  | notObject => rfl
  | notString => rfl
  | texts hpairs =>
    cases hpairs with
    | unknown => rfl
    | missing => rfl
    | given _ htexts =>
      cases htexts
      rfl

namespace Document

variable {members other : List (String × Json)} {value : Json} {document : Document}
  {refusal : Refusal}

/-- Every member has the name of a part. -/
def NamesKnown (members : List (String × Json)) : Prop :=
  ∀ member ∈ members, member.1 ∈ keys

/-- What an object gives for a part that may be absent: what its member reads as, or else the
default. -/
inductive Gives {α : Type} (members : List (String × Json)) (name : String) (Reads : Json → α → Prop)
    (default : α) : α → Prop
  | absent (habsent : name ∉ Entries.names members) : Gives members name Reads default default
  | present {value : Json} {result : α} (hmember : (name, value) ∈ members)
      (hreads : Reads value result) : Gives members name Reads default result

/-- The placeholders of an object: the entries of its member in their order, or none. -/
def GivesTable (members : List (String × Json)) (table : Table) : Prop :=
  Gives members "placeholders" (fun value table => table.IsObject value) .empty table

/-- The markers of an object: the set whose object its member is, or none. -/
def GivesMarkers (members : List (String × Json)) (markers : Option Markers) : Prop :=
  Gives members "markers" (fun value chosen => ∃ set : Markers, chosen = some set ∧
    set.texts.IsObject value) none markers

/-- The members of an object give the document: there are no others, and each part is what its member
says. -/
structure GivenBy (document : Document) (members : List (String × Json)) : Prop where
  known : NamesKnown members
  template : ("template", .string document.template) ∈ members
  placeholders : GivesTable members document.placeholders
  markers : GivesMarkers members document.markers

/-- Why a value is no document. Each case says which check fails and that those before it do not. -/
inductive Refused : Json → Refusal → Prop
  | notObject {value : Json} (hvalue : ∀ members, value ≠ .object members) :
      Refused value (.documentNotObject value.kind)
  | unknown {before after : List (String × Json)} {name : String} {value : Json}
      (hbefore : NamesKnown before) (hname : name ∉ keys) :
      Refused (.object (before ++ (name, value) :: after)) (.unknownMember name)
  | templateMissing {members : List (String × Json)} (hknown : NamesKnown members)
      (habsent : "template" ∉ Entries.names members) : Refused (.object members) .templateMissing
  | templateNotString {members : List (String × Json)} {value : Json} (hknown : NamesKnown members)
      (hmember : ("template", value) ∈ members) (hvalue : ∀ text, value ≠ .string text) :
      Refused (.object members) (.templateNotString value.kind)
  | placeholders {members : List (String × Json)} {template : String} {value : Json}
      {refusal : Refusal} (hknown : NamesKnown members)
      (htemplate : ("template", .string template) ∈ members)
      (hmember : ("placeholders", value) ∈ members) (hrefused : Table.Refused value refusal) :
      Refused (.object members) refusal
  | markers {members : List (String × Json)} {template : String} {table : Table} {value : Json}
      {refusal : Refusal} (hknown : NamesKnown members)
      (htemplate : ("template", .string template) ∈ members) (htable : GivesTable members table)
      (hmember : ("markers", value) ∈ members)
      (hrefused : Markers.FromJson value (.error refusal)) : Refused (.object members) refusal

section Parts

variable {α : Type} {name : String} {read : Json → Except Refusal α} {default result : α}

/-- Read a part that may be absent. -/
def optionalPart (members : List (String × Json)) (name : String) (read : Json → Except Refusal α)
    (default : α) : Except Refusal α :=
  match Entries.find? name members with
  | some value => read value
  | none => .ok default

variable (hdistinct : (Json.object members).Distinct)

include hdistinct

/-- The members of a distinct object have distinct names. -/
theorem nodup_names : (Entries.names members).Nodup := by
  cases hdistinct with
  | object hnodup _ => exact hnodup

/-- The members of a distinct object are distinct inside. -/
theorem distinct_of_mem (hmember : (name, value) ∈ members) : value.Distinct := by
  cases hdistinct with
  | object _ hvalues => exact hvalues _ hmember

/-- With distinct names, the value that is found is the one that stands there. -/
theorem find?_eq_some_iff : Entries.find? name members = some value ↔ (name, value) ∈ members :=
  Entries.find?_eq_some_iff (nodup_names hdistinct)

/-- An optional part is read just when it is missing or its value is read. -/
theorem optionalPart_eq_ok_iff {Reads : Json → α → Prop}
    (hread : ∀ value, (name, value) ∈ members → (read value = .ok result ↔ Reads value result)) :
    optionalPart members name read default = .ok result ↔
      Gives members name Reads default result := by
  rw [optionalPart]
  cases hfound : Entries.find? name members with
  | none =>
    have habsent := Entries.find?_eq_none_iff.mp hfound
    constructor
    · intro hdefault
      cases hdefault
      exact .absent habsent
    · rintro (_ | ⟨hmember, _⟩)
      · rfl
      · exact absurd (List.mem_map_of_mem hmember) habsent
  | some value =>
    have hmember := (find?_eq_some_iff hdistinct).mp hfound
    constructor
    · exact fun hresult => .present hmember ((hread value hmember).mp hresult)
    · rintro (habsent | ⟨hpresent, hreads⟩)
      · exact absurd (List.mem_map_of_mem hmember) habsent
      · cases hfound.symm.trans ((find?_eq_some_iff hdistinct).mpr hpresent)
        exact (hread value hmember).mpr hreads

/-- An optional part is refused just when it is there and its value is refused. -/
theorem optionalPart_eq_error_iff :
    optionalPart members name read default = .error refusal ↔
      ∃ value, (name, value) ∈ members ∧ read value = .error refusal := by
  simp only [← find?_eq_some_iff hdistinct, optionalPart]
  cases Entries.find? name members <;> simp

/-- The template is read just when it is a text. -/
theorem templateOf_eq_ok_iff {template : String} :
    templateOf members = .ok template ↔ ("template", .string template) ∈ members := by
  rw [← find?_eq_some_iff hdistinct, templateOf]
  split
  · next text hfound => simp [hfound]
  · next value hother hfound =>
    rw [hfound]
    exact iff_of_false (fun htext => by cases htext) fun hvalue => hother _ (Option.some.inj hvalue)
  · next hnone => simp [hnone]

/-- The template is refused just when it is missing or not a text. -/
theorem templateOf_eq_error_iff :
    templateOf members = .error refusal ↔
      ("template" ∉ Entries.names members ∧ refusal = .templateMissing) ∨
        ∃ value, ("template", value) ∈ members ∧ (∀ text, value ≠ .string text) ∧
          refusal = .templateNotString value.kind := by
  simp only [← find?_eq_some_iff hdistinct, ← Entries.find?_eq_none_iff, templateOf]
  split
  · next text hfound => simp [hfound]
  · next value hother hfound =>
    have hvalue (text : String) : value ≠ .string text := fun heq => hother text heq
    simp [hfound, hvalue, eq_comm]
  · next hnone => simp [hnone, eq_comm]

/-- The placeholders are read just when a table is given. -/
theorem placeholdersOf_eq_ok_iff {table : Table} :
    placeholdersOf members = .ok table ↔ GivesTable members table :=
  optionalPart_eq_ok_iff hdistinct fun _ hmember =>
    Table.ofJson_eq_ok_iff (distinct_of_mem hdistinct hmember)

/-- The placeholders are refused just when they are there and no table is read from them. -/
theorem placeholdersOf_eq_error_iff :
    placeholdersOf members = .error refusal ↔
      ∃ value, ("placeholders", value) ∈ members ∧ Table.Refused value refusal := by
  simp only [← Table.ofJson_eq_error_iff]
  exact optionalPart_eq_error_iff hdistinct

/-- The markers are read just when they are given or missing. -/
theorem markersOf_eq_ok_iff {markers : Option Markers} :
    markersOf members = .ok markers ↔ GivesMarkers members markers := by
  refine optionalPart_eq_ok_iff hdistinct fun value hmember => ?_
  simp only [← Markers.ofJson_eq_ok_iff (distinct_of_mem hdistinct hmember)]
  cases Markers.ofJson value <;> simp [Except.map, eq_comm]

/-- The markers are refused just when they are there and no markers are made of them. -/
theorem markersOf_eq_error_iff :
    markersOf members = .error refusal ↔
      ∃ value, ("markers", value) ∈ members ∧ Markers.FromJson value (.error refusal) := by
  simp only [← Markers.ofJson_eq_iff]
  refine (optionalPart_eq_error_iff hdistinct).trans ?_
  refine exists_congr fun value => and_congr_right fun _ => ?_
  cases Markers.ofJson value <;> simp [Except.map]

end Parts

/-- Every member has the name of a part, or there is a first one that has not. -/
theorem namesKnown_or_unknown (members : List (String × Json)) :
    NamesKnown members ∨ ∃ before name value after,
      NamesKnown before ∧ name ∉ keys ∧ members = before ++ (name, value) :: after := by
  induction members with
  | nil => exact .inl fun _ hmember => absurd hmember List.not_mem_nil
  | cons member members ih =>
    by_cases hname : member.1 ∈ keys
    · rcases ih with hknown | ⟨before, name, value, after, hbefore, hunknown, rfl⟩
      · exact .inl (List.forall_mem_cons.mpr ⟨hname, hknown⟩)
      · exact .inr ⟨member :: before, name, value, after,
          List.forall_mem_cons.mpr ⟨hname, hbefore⟩, hunknown, rfl⟩
    · exact .inr ⟨[], member.1, member.2, members, fun _ hmember => absurd hmember List.not_mem_nil,
        hname, rfl⟩

/-- If all names are known, the parts are read one after another. -/
theorem ofJson_of_namesKnown (hknown : NamesKnown members) :
    ofJson (.object members) = do
      let template ← templateOf members
      let placeholders ← placeholdersOf members
      let markers ← markersOf members
      return ⟨template, placeholders, markers⟩ := by
  have hnone : List.find? (fun member => !keys.contains member.1) members = none :=
    List.find?_eq_none.mpr fun member hmember => by simpa using hknown member hmember
  rw [ofJson, hnone]

/-- The first unknown name is told, whatever else is wrong. -/
theorem ofJson_of_unknown {before after : List (String × Json)} {name : String}
    (hbefore : NamesKnown before) (hname : name ∉ keys) :
    ofJson (.object (before ++ (name, value) :: after)) = .error (.unknownMember name) := by
  have hfirst : List.find? (fun member => !keys.contains member.1)
      (before ++ (name, value) :: after) = some (name, value) :=
    List.find?_eq_some_iff_append.mpr ⟨by simpa using hname, before, after, rfl,
      fun member hmember => by simpa using hbefore member hmember⟩
  rw [ofJson, hfirst]

/-- With a name that is not known, not all names are known. -/
theorem not_namesKnown {before after : List (String × Json)} {name : String} (hname : name ∉ keys) :
    ¬ NamesKnown (before ++ (name, value) :: after) := fun hknown =>
  hname (hknown (name, value) (List.mem_append_right before List.mem_cons_self))

/-- A value is read as a document just when it is an object whose members give the document. -/
theorem ofJson_eq_ok_iff (hdistinct : value.Distinct) :
    ofJson value = .ok document ↔ ∃ members, value = .object members ∧ document.GivenBy members := by
  cases value with
  | object members =>
    simp only [Json.object.injEq, exists_eq_left']
    rcases namesKnown_or_unknown members with hknown | ⟨before, name, value, after, hbefore, hname, rfl⟩
    · simp only [ofJson_of_namesKnown hknown, Except.bind_eq_ok_iff, Except.pure_eq_ok_iff,
        templateOf_eq_ok_iff hdistinct, placeholdersOf_eq_ok_iff hdistinct,
        markersOf_eq_ok_iff hdistinct]
      constructor
      · rintro ⟨template, htemplate, placeholders, hplaceholders, markers, hmarkers, rfl⟩
        exact ⟨hknown, htemplate, hplaceholders, hmarkers⟩
      · rintro ⟨-, htemplate, hplaceholders, hmarkers⟩
        exact ⟨_, htemplate, _, hplaceholders, _, hmarkers, rfl⟩
    · rw [ofJson_of_unknown hbefore hname]
      exact iff_of_false (fun hread => by cases hread) fun hgiven => not_namesKnown hname hgiven.known
  | _ =>
    refine iff_of_false (fun hread => by cases hread) ?_
    rintro ⟨members, hobject, -⟩
    cases hobject

/-- If all names are known, the first part that cannot be read is the fault. -/
theorem ofJson_object_eq_error_iff (hdistinct : (Json.object members).Distinct)
    (hknown : NamesKnown members) :
    ofJson (.object members) = .error refusal ↔
      (("template" ∉ Entries.names members ∧ refusal = .templateMissing) ∨
        ∃ value, ("template", value) ∈ members ∧ (∀ text, value ≠ .string text) ∧
          refusal = .templateNotString value.kind) ∨
      ∃ template, ("template", .string template) ∈ members ∧
        ((∃ value, ("placeholders", value) ∈ members ∧ Table.Refused value refusal) ∨
        ∃ table, GivesTable members table ∧
          ∃ value, ("markers", value) ∈ members ∧ Markers.FromJson value (.error refusal)) := by
  have hread (document : Document) :
      (pure document : Except Refusal Document) ≠ .error refusal := fun hfails => by cases hfails
  simp only [ofJson_of_namesKnown hknown, Except.bind_eq_error_iff, templateOf_eq_ok_iff hdistinct,
    templateOf_eq_error_iff hdistinct, placeholdersOf_eq_ok_iff hdistinct,
    placeholdersOf_eq_error_iff hdistinct, markersOf_eq_error_iff hdistinct, hread, and_false,
    exists_false, or_false]

/-- A refusal has one of the reasons to refuse. -/
theorem refused_of_ofJson (hdistinct : value.Distinct) (hrefusal : ofJson value = .error refusal) :
    Refused value refusal := by
  by_cases hobject : ∃ members, value = .object members
  · obtain ⟨members, rfl⟩ := hobject
    rcases namesKnown_or_unknown members with hknown | ⟨before, name, value, after, hbefore, hname, rfl⟩
    · rcases (ofJson_object_eq_error_iff hdistinct hknown).mp hrefusal with
        (⟨habsent, rfl⟩ | ⟨value, hmember, hvalue, rfl⟩) | ⟨template, htemplate, hrest⟩
      · exact .templateMissing hknown habsent
      · exact .templateNotString hknown hmember hvalue
      · rcases hrest with ⟨value, hmember, hrefused⟩ | ⟨table, htable, value, hmember, hrefused⟩
        · exact .placeholders hknown htemplate hmember hrefused
        · exact .markers hknown htemplate htable hmember hrefused
    · rw [ofJson_of_unknown hbefore hname] at hrefusal
      cases hrefusal
      exact .unknown hbefore hname
  · have hvalue (members : List (String × Json)) : value ≠ .object members :=
      fun heq => hobject ⟨members, heq⟩
    cases value with
    | object members => exact absurd rfl (hvalue members)
    | _ =>
      cases hrefusal
      exact .notObject hvalue

/-- A value that no document is read from is refused. -/
theorem ofJson_of_refused (hdistinct : value.Distinct) (hrefused : Refused value refusal) :
    ofJson value = .error refusal := by
  cases hrefused with
  | notObject hvalue =>
    cases value with
    | object members => exact absurd rfl (hvalue members)
    | _ => rfl
  | unknown hbefore hname => exact ofJson_of_unknown hbefore hname
  | templateMissing hknown habsent =>
    exact (ofJson_object_eq_error_iff hdistinct hknown).mpr (.inl (.inl ⟨habsent, rfl⟩))
  | templateNotString hknown hmember hvalue =>
    exact (ofJson_object_eq_error_iff hdistinct hknown).mpr (.inl (.inr ⟨_, hmember, hvalue, rfl⟩))
  | placeholders hknown htemplate hmember hrefused =>
    exact (ofJson_object_eq_error_iff hdistinct hknown).mpr
      (.inr ⟨_, htemplate, .inl ⟨_, hmember, hrefused⟩⟩)
  | markers hknown htemplate htable hmember hrefused =>
    exact (ofJson_object_eq_error_iff hdistinct hknown).mpr
      (.inr ⟨_, htemplate, .inr ⟨_, htable, _, hmember, hrefused⟩⟩)

/-- A value is refused just when one of the cases applies. -/
theorem ofJson_eq_error_iff (hdistinct : value.Distinct) :
    ofJson value = .error refusal ↔ Refused value refusal :=
  ⟨refused_of_ofJson hdistinct, ofJson_of_refused hdistinct⟩

section Blame

variable {field : Field}

/-- A value is an object that has the member. -/
def HasMember (value : Json) (name : String) (part : Json) : Prop :=
  ∃ members, value = .object members ∧ (name, part) ∈ members

/-- The place of a part in the order of the checks. -/
def rank : Field → Nat
  | .document => 0
  | .template => 1
  | .placeholders => 2
  | .markers => 3

/-- Whether a value passes the check of a part. -/
def Passes (value : Json) : Field → Prop
  | .document => ∃ members, value = .object members ∧ NamesKnown members
  | .template => ∃ text, HasMember value "template" (.string text)
  | .placeholders => ∀ part, HasMember value "placeholders" part → ∃ table : Table, table.IsObject part
  | .markers => ∀ part, HasMember value "markers" part → ∃ markers : Markers, markers.texts.IsObject part

/-- The check of the part is the first that fails. -/
def FailsFirst (value : Json) (field : Field) : Prop :=
  ¬ Passes value field ∧ ∀ earlier, rank earlier < rank field → Passes value earlier

/-- Only one check fails first. -/
theorem FailsFirst.unique {other : Field} (hfield : FailsFirst value field)
    (hother : FailsFirst value other) : field = other := by
  have hle : ¬ rank field < rank other := fun hlt => hfield.1 (hother.2 field hlt)
  have hge : ¬ rank other < rank field := fun hlt => hother.1 (hfield.2 other hlt)
  cases field <;> cases other <;> first | rfl | simp [rank] at hle hge

/-- An object has the members that it lists. -/
theorem hasMember_object_iff {name : String} {part : Json} :
    HasMember (.object members) name part ↔ (name, part) ∈ members := by
  simp [HasMember]

/-- What is given passes the check of its part. -/
theorem passes_of_gives {α : Type} {name : String} {Reads : Json → α → Prop} {default result : α}
    (hdistinct : (Json.object members).Distinct) (hgives : Gives members name Reads default result)
    {part : Json} (hpart : HasMember (.object members) name part) : Reads part result := by
  rw [hasMember_object_iff] at hpart
  cases hgives with
  | absent habsent => exact absurd (List.mem_map_of_mem hpart) habsent
  | present hmember hreads =>
    have hfound := (find?_eq_some_iff hdistinct).mpr hmember
    cases hfound.symm.trans ((find?_eq_some_iff hdistinct).mpr hpart)
    exact hreads

/-- What is read as a document passes all checks. -/
theorem passes_of_ofJson (hdistinct : value.Distinct) (hread : ofJson value = .ok document)
    (field : Field) : Passes value field := by
  obtain ⟨members, rfl, hgiven⟩ := (ofJson_eq_ok_iff hdistinct).mp hread
  cases field with
  | document => exact ⟨members, rfl, hgiven.known⟩
  | template => exact ⟨_, hasMember_object_iff.mpr hgiven.template⟩
  | placeholders => exact fun part hpart => ⟨_, passes_of_gives hdistinct hgiven.placeholders hpart⟩
  | markers =>
    intro part hpart
    obtain ⟨markers, -, hmarkers⟩ := passes_of_gives hdistinct hgiven.markers hpart
    exact ⟨markers, hmarkers⟩

/-- An object whose names are known passes as a document. -/
theorem passes_document (hknown : NamesKnown members) : Passes (.object members) .document :=
  ⟨members, rfl, hknown⟩

/-- A text passes as a template. -/
theorem passes_template {template : String} (htemplate : ("template", .string template) ∈ members) :
    Passes (.object members) .template :=
  ⟨template, hasMember_object_iff.mpr htemplate⟩

/-- A table that is given passes as placeholders. -/
theorem passes_placeholders {table : Table} (hdistinct : (Json.object members).Distinct)
    (htable : GivesTable members table) : Passes (.object members) .placeholders :=
  fun _ hpart => ⟨table, passes_of_gives hdistinct htable hpart⟩

/-- What is not a text does not pass as a template. -/
theorem not_passes_template (hdistinct : (Json.object members).Distinct)
    (hmember : ("template", value) ∈ members) (hvalue : ∀ text, value ≠ .string text) :
    ¬ Passes (.object members) .template := by
  rintro ⟨text, htext⟩
  have hfound := (find?_eq_some_iff hdistinct).mpr (hasMember_object_iff.mp htext)
  exact hvalue text (Option.some.inj (((find?_eq_some_iff hdistinct).mpr hmember).symm.trans hfound))

/-- What is refused as a table does not pass as placeholders. -/
theorem not_passes_placeholders (hdistinct : (Json.object members).Distinct)
    (hmember : ("placeholders", value) ∈ members) (hrefused : Table.Refused value refusal) :
    ¬ Passes (.object members) .placeholders := by
  intro hpasses
  obtain ⟨table, htable⟩ := hpasses value (hasMember_object_iff.mpr hmember)
  have hread := (Table.ofJson_eq_ok_iff (distinct_of_mem hdistinct hmember)).mpr htable
  cases hread.symm.trans (Table.ofJson_of_refused hrefused)

/-- What is refused as markers does not pass as markers. -/
theorem not_passes_markers (hdistinct : (Json.object members).Distinct)
    (hmember : ("markers", value) ∈ members)
    (hrefused : Markers.FromJson value (.error refusal)) : ¬ Passes (.object members) .markers := by
  intro hpasses
  obtain ⟨markers, hmarkers⟩ := hpasses value (hasMember_object_iff.mpr hmember)
  have hread := (Markers.ofJson_eq_ok_iff (distinct_of_mem hdistinct hmember)).mpr hmarkers
  cases hread.symm.trans (Markers.ofJson_eq_iff.mpr hrefused)

/-- What refuses a value blames the part of the first check that fails. -/
theorem failsFirst_of_refused (hdistinct : value.Distinct) (hrefused : Refused value refusal) :
    FailsFirst value refusal.field := by
  cases hrefused with
  | notObject hvalue =>
    refine ⟨?_, fun earlier hearlier => absurd hearlier (Nat.not_lt_zero _)⟩
    rintro ⟨members, hobject, -⟩
    exact hvalue members hobject
  | unknown hbefore hname =>
    refine ⟨?_, fun earlier hearlier => absurd hearlier (Nat.not_lt_zero _)⟩
    rintro ⟨members, hobject, hknown⟩
    cases hobject
    exact not_namesKnown hname hknown
  | templateMissing hknown habsent =>
    refine ⟨?_, fun earlier hearlier => ?_⟩
    · rintro ⟨text, htext⟩
      exact habsent (List.mem_map_of_mem (hasMember_object_iff.mp htext))
    · cases earlier with
      | document => exact passes_document hknown
      | _ => simp [rank, Refusal.field] at hearlier
  | templateNotString hknown hmember hvalue =>
    refine ⟨not_passes_template hdistinct hmember hvalue, fun earlier hearlier => ?_⟩
    cases earlier with
    | document => exact passes_document hknown
    | _ => simp [rank, Refusal.field] at hearlier
  | placeholders hknown htemplate hmember hrefused =>
    rw [hrefused.field_eq]
    refine ⟨not_passes_placeholders hdistinct hmember hrefused, fun earlier hearlier => ?_⟩
    cases earlier with
    | document => exact passes_document hknown
    | template => exact passes_template htemplate
    | _ => simp [rank] at hearlier
  | markers hknown htemplate htable hmember hrefused =>
    rw [Markers.field_of_fromJson hrefused]
    refine ⟨not_passes_markers hdistinct hmember hrefused, fun earlier hearlier => ?_⟩
    cases earlier with
    | document => exact passes_document hknown
    | template => exact passes_template htemplate
    | placeholders => exact passes_placeholders hdistinct htable
    | markers => simp [rank] at hearlier

/-- The part that is blamed is that of the first check that fails. -/
theorem exists_refusal_iff (hdistinct : value.Distinct) :
    (∃ refusal, ofJson value = .error refusal ∧ refusal.field = field) ↔ FailsFirst value field := by
  constructor
  · rintro ⟨refusal, hrefusal, rfl⟩
    exact failsFirst_of_refused hdistinct ((ofJson_eq_error_iff hdistinct).mp hrefusal)
  · intro hfails
    cases houtcome : ofJson value with
    | ok document => exact absurd (passes_of_ofJson hdistinct houtcome field) hfails.1
    | error refusal =>
      have hfirst := failsFirst_of_refused hdistinct ((ofJson_eq_error_iff hdistinct).mp houtcome)
      exact ⟨refusal, rfl, hfirst.unique hfails⟩

end Blame

section Order

/-- Names that are known are known in any order. -/
theorem NamesKnown.of_perm (hknown : NamesKnown members) (hperm : members.Perm other) :
    NamesKnown other := fun member hmember => hknown member (hperm.mem_iff.mpr hmember)

/-- If there are unknown names, the first of them is told. -/
theorem exists_unknown (hunknown : ¬ NamesKnown members) :
    ∃ name ∈ Entries.names members, name ∉ keys ∧
      ofJson (.object members) = .error (.unknownMember name) := by
  rcases namesKnown_or_unknown members with hknown | ⟨before, name, value, after, hbefore, hname, rfl⟩
  · exact absurd hknown hunknown
  · exact ⟨name, by simp [Entries.names], hname, ofJson_of_unknown hbefore hname⟩

/-- The order of the members matters only to which of several unknown names is told. -/
theorem ofJson_of_perm (hdistinct : (Json.object members).Distinct) (hperm : members.Perm other) :
    ofJson (.object members) = ofJson (.object other) ∨
      ∃ first ∈ Entries.names members, ∃ second ∈ Entries.names members,
        first ≠ second ∧ first ∉ keys ∧ second ∉ keys ∧
          ofJson (.object members) = .error (.unknownMember first) ∧
            ofJson (.object other) = .error (.unknownMember second) := by
  by_cases hknown : NamesKnown members
  · have hfind := Entries.find?_eq_of_perm (nodup_names hdistinct) hperm
    rw [ofJson_of_namesKnown hknown, ofJson_of_namesKnown (hknown.of_perm hperm)]
    left
    simp only [templateOf, placeholdersOf, markersOf, hfind]
  · have hother : ¬ NamesKnown other := fun hother => hknown (hother.of_perm hperm.symm)
    obtain ⟨first, hfirst, hfirstUnknown, hread⟩ := exists_unknown hknown
    obtain ⟨second, hsecond, hsecondUnknown, hreadOther⟩ := exists_unknown hother
    by_cases hsame : first = second
    · exact .inl (by rw [hread, hreadOther, hsame])
    · exact .inr ⟨first, hfirst, second, (hperm.map Prod.fst).mem_iff.mpr hsecond, hsame,
        hfirstUnknown, hsecondUnknown, hread, hreadOther⟩

/-- Members in another order than those of an object of texts are texts in another order. -/
theorem exists_pairs_of_perm {pairs : List (String × String)}
    (hperm : (Json.textMembers pairs).Perm other) :
    ∃ shuffled, other = Json.textMembers shuffled ∧ pairs.Perm shuffled := by
  rcases Json.textMembers_cases other with ⟨shuffled, rfl⟩ | ⟨before, name, value, after, hvalue, rfl⟩
  · have hinjective : Function.Injective fun pair : String × String => (pair.1, Json.string pair.2) := by
      intro pair other hsame
      obtain ⟨hname, htext⟩ := Prod.mk.inj hsame
      exact Prod.ext hname (Json.string.inj htext)
    exact ⟨shuffled, rfl, (List.map_perm_map_iff hinjective).mp hperm⟩
  · have hmember : (name, value) ∈ Json.textMembers pairs := hperm.mem_iff.mpr (by simp)
    obtain ⟨pair, -, hpair⟩ := List.mem_map.mp hmember
    exact absurd (Prod.mk.inj hpair).2.symm (hvalue pair.2)

variable {before after entries shuffled : List (String × Json)} {first second part : Json}

/-- Members with another value for the placeholders have the same names. -/
theorem names_replace :
    Entries.names (before ++ ("placeholders", first) :: after) =
      Entries.names (before ++ ("placeholders", second) :: after) := by
  simp [Entries.names]

/-- The other members stay. -/
theorem mem_replace {name : String} (hname : name ≠ "placeholders")
    (hmember : (name, part) ∈ before ++ ("placeholders", first) :: after) :
    (name, part) ∈ before ++ ("placeholders", second) :: after := by
  simpa [hname] using hmember

/-- A part is given alike when the placeholders are replaced by others. -/
theorem Gives.replace {α : Type} {name : String} {Reads : Json → α → Prop} {default result : α}
    (hname : name ≠ "placeholders")
    (hgives : Gives (before ++ ("placeholders", first) :: after) name Reads default result) :
    Gives (before ++ ("placeholders", second) :: after) name Reads default result := by
  cases hgives with
  | absent habsent => exact .absent (names_replace ▸ habsent)
  | present hmember hreads => exact .present (mem_replace hname hmember) hreads

/-- Other placeholders change nothing but the table. -/
theorem GivenBy.replace {table : Table}
    (hgiven : document.GivenBy (before ++ ("placeholders", first) :: after))
    (htable : table.IsObject second) :
    GivenBy { document with placeholders := table }
      (before ++ ("placeholders", second) :: after) where
  known := by
    intro member hmember
    have hname : member.1 ∈ Entries.names (before ++ ("placeholders", first) :: after) :=
      names_replace ▸ List.mem_map_of_mem hmember
    obtain ⟨old, hold, hsame⟩ := List.mem_map.mp hname
    exact hsame ▸ hgiven.known old hold
  template := mem_replace (by decide) hgiven.template
  placeholders := .present (by simp) htable
  markers := Gives.replace (by decide) hgiven.markers

/-- The order of the placeholders of a document matters only to the order of its table. -/
theorem ofJson_of_placeholders_perm
    (hdistinct : (Json.object (before ++ ("placeholders", .object entries) :: after)).Distinct)
    (hperm : entries.Perm shuffled)
    (hread : ofJson (.object (before ++ ("placeholders", .object entries) :: after)) = .ok document) :
    ∃ table : Table, table.entries.Perm document.placeholders.entries ∧
      table.IsObject (.object shuffled) ∧
      ofJson (.object (before ++ ("placeholders", .object shuffled) :: after)) =
        .ok { document with placeholders := table } := by
  obtain ⟨members, hmembers, hgiven⟩ := (ofJson_eq_ok_iff hdistinct).mp hread
  obtain rfl := Json.object.inj hmembers
  have hobject : document.placeholders.IsObject (.object entries) :=
    passes_of_gives hdistinct hgiven.placeholders (hasMember_object_iff.mpr (by simp))
  obtain rfl := Json.object.inj hobject
  obtain ⟨pairs, rfl, hpairs⟩ := exists_pairs_of_perm hperm
  have hnodup : (pairs.map Prod.fst).Nodup :=
    (hpairs.map Prod.fst).nodup_iff.mp document.placeholders.nodup
  let table : Table := ⟨pairs, hnodup⟩
  refine ⟨table, hpairs.symm, rfl, ?_⟩
  have hshuffled : (Json.object (before ++
      ("placeholders", .object (Json.textMembers pairs)) :: after)).Distinct := by
    refine .object ?_ fun member hmember => ?_
    · have hnames := nodup_names hdistinct
      rwa [names_replace] at hnames
    · rw [List.mem_append, List.mem_cons] at hmember
      rcases hmember with hbefore | rfl | hafter
      · exact distinct_of_mem hdistinct (List.mem_append_left _ hbefore)
      · exact Json.distinct_textMembers hnodup
      · exact distinct_of_mem hdistinct
          (List.mem_append_right _ (List.mem_cons_of_mem _ hafter))
  exact (ofJson_eq_ok_iff hshuffled).mpr ⟨_, rfl, hgiven.replace rfl⟩

end Order

/-- Documents are read by the checks in their order.

A value is a document just when its members give it, and otherwise the first check that fails is told.
The order of the members tells nothing but which of several unknown names is blamed. -/
theorem ofJson_checks_in_order (hdistinct : value.Distinct) :
    (∀ document, ofJson value = .ok document ↔
      ∃ members, value = .object members ∧ document.GivenBy members) ∧
    (∀ refusal, ofJson value = .error refusal ↔ Refused value refusal) ∧
    (∀ field, (∃ refusal, ofJson value = .error refusal ∧ refusal.field = field) ↔
      FailsFirst value field) ∧
    (∀ members other, value = .object members → members.Perm other →
      ofJson value = ofJson (.object other) ∨
        ∃ first ∈ Entries.names members, ∃ second ∈ Entries.names members,
          first ≠ second ∧ first ∉ keys ∧ second ∉ keys ∧
            ofJson value = .error (.unknownMember first) ∧
              ofJson (.object other) = .error (.unknownMember second)) ∧
    ∀ before after entries shuffled document,
      value = .object (before ++ ("placeholders", .object entries) :: after) →
      entries.Perm shuffled → ofJson value = .ok document →
      ∃ table : Table, table.entries.Perm document.placeholders.entries ∧
        table.IsObject (.object shuffled) ∧
        ofJson (.object (before ++ ("placeholders", .object shuffled) :: after)) =
          .ok { document with placeholders := table } := by
  refine ⟨fun document => ofJson_eq_ok_iff hdistinct, fun refusal => ofJson_eq_error_iff hdistinct,
    fun field => exists_refusal_iff hdistinct, ?_, ?_⟩
  · rintro members other rfl hperm
    exact ofJson_of_perm hdistinct hperm
  · rintro before after entries shuffled document rfl hperm hread
    exact ofJson_of_placeholders_perm hdistinct hperm hread

/-- Of two faults the later member is told, because placeholders are checked before markers, and of two
entries that are no texts the first. -/
theorem ofJson_checks_in_order_reversed :
    let placeholders := Json.object [("a", .string "1"), ("b", .integer 2), ("c", .null)]
    let value := Json.object
      [("markers", .null), ("placeholders", placeholders), ("template", .string "~a~")]
    value.Distinct ∧ ofJson value = .error (.valueNotString "b" .number) ∧
      FailsFirst value .placeholders := by
  intro placeholders value
  have hplaceholders : placeholders.Distinct := by
    refine .object (by decide) fun entry hentry => ?_
    simp only [List.mem_cons, List.not_mem_nil, or_false] at hentry
    rcases hentry with rfl | rfl | rfl
    · exact .string "1"
    · exact .integer 2
    · exact .null
  have hdistinct : value.Distinct := by
    refine .object (by decide) fun member hmember => ?_
    simp only [List.mem_cons, List.not_mem_nil, or_false] at hmember
    rcases hmember with rfl | rfl | rfl
    · exact .null
    · exact hplaceholders
    · exact .string "~a~"
  obtain ⟨-, hrefused, hblamed, -⟩ := ofJson_checks_in_order hdistinct
  have hentry : Table.Refused placeholders (.valueNotString "b" .number) :=
    @Table.Refused.notString [("a", "1")] "b" (.integer 2) [("c", .null)] fun _ heq => by cases heq
  have hread : Refused value (.valueNotString "b" .number) := by
    refine @Refused.placeholders _ "~a~" placeholders _ ?_ ?_ ?_ hentry
    · simp [NamesKnown, keys]
    · simp
    · simp
  rw [← hrefused] at hread
  exact ⟨hdistinct, hread, (hblamed _).mp ⟨_, hread, rfl⟩⟩

end Document

end Spintax
