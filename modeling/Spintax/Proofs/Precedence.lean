import Mathlib.Data.List.TakeWhile
import Spintax.CommandLine.Program
import Spintax.Proofs.LastValues

/-!
# Precedence on the command line

The placeholders of a command are inserted pair by pair: those of its document, then those of a file,
then the assignments. Inserting appends a new name and replaces the value of a known one, so it is the
same whether tables are laid over one another or all their pairs are collected at once. That is why
position and value go opposite ways: a name stands where it first appears, and has its last value.

Markers are not merged. The document's are taken if it has any, and then those of the settings are not
looked at, so it does not matter whether they could be used.
-/

namespace Spintax

namespace Table

/-- The table holds a document's entries, then those of a further table, then assignments: what comes
later beats what comes earlier, and what comes earlier keeps its place. -/
structure Layered (table document further : Table) (assignments : List (String × String)) : Prop where
  collected : table.CollectedFrom (document.entries ++ further.entries ++ assignments)
  value : ∀ name, table.get? name =
    (Entries.lastValue? assignments name <|> further.get? name <|> document.get? name)
  documentFirst : document.entries.names <+: (document.insertAll further.entries).entries.names
  assignmentsLast : (document.insertAll further.entries).entries.names <+: table.entries.names

/-- Pairs inserted in two goes are collected at once behind the entries of the table. -/
theorem insertAll_insertAll (document further : Table) (assignments : List (String × String)) :
    (document.insertAll further.entries).insertAll assignments =
      ofPairs (document.entries ++ further.entries ++ assignments) := by
  rw [insertAll_eq_ofPairs document, insertAll_ofPairs]

/-- Names that are collected keep their places when more pairs come. -/
theorem names_prefix_names_ofPairs (pairs other : List (String × String)) :
    (ofPairs pairs).entries.names <+: (ofPairs (pairs ++ other)).entries.names := by
  rw [(collectedFrom_ofPairs _).names, (collectedFrom_ofPairs _).names, List.map_append,
    List.eraseDups_append]
  exact List.prefix_append _ _

/-- Pairs that are collected are layered. -/
theorem layered_ofPairs (document further : Table) (assignments : List (String × String)) :
    (ofPairs (document.entries ++ further.entries ++ assignments)).Layered document further
      assignments where
  collected := collectedFrom_ofPairs _
  value name := by
    rw [(collectedFrom_ofPairs _).value, Entries.lastValue?_append, Entries.lastValue?_append,
      lastValue?_entries, lastValue?_entries]
  documentFirst := by
    have hprefix := names_prefix_names_ofPairs document.entries further.entries
    rwa [ofPairs_entries, ← insertAll_eq_ofPairs] at hprefix
  assignmentsLast := by
    rw [insertAll_eq_ofPairs]
    exact names_prefix_names_ofPairs _ assignments

end Table

namespace CommandLine

variable {text name value : String}

/-- A name that is not empty and has no equals sign, an equals sign and a value are accepted. -/
theorem assignment?_append (hname : name ≠ "") (hequals : '=' ∉ name.toList) :
    assignment? (name ++ "=" ++ value) = some (name, value) := by
  have hall : ∀ c ∈ name.toList, (c != '=') = true := fun c hc =>
    bne_iff_ne.mpr fun hsame => hequals (hsame ▸ hc)
  have htext : (name ++ "=" ++ value).toList = name.toList ++ '=' :: value.toList := by simp
  simp only [assignment?]
  rw [htext, List.takeWhile_append_of_pos hall, List.dropWhile_append_of_pos hall]
  simp [hname]

/-- An assignment is accepted just when it is a name, an equals sign and a value, where the name is
not empty and has no equals sign; these two parts are what it gives. -/
theorem assignment?_eq_some_iff :
    assignment? text = some (name, value) ↔
      name ≠ "" ∧ '=' ∉ name.toList ∧ text = name ++ "=" ++ value := by
  refine ⟨fun haccepted => ?_, fun ⟨hname, hequals, htext⟩ => htext ▸ assignment?_append hname hequals⟩
  have hparts := List.takeWhile_append_dropWhile (p := (· != '=')) (l := text.toList)
  rw [assignment?] at haccepted
  split at haccepted
  · next c cs hrest =>
    have hc : c = '=' := by
      have hhead := List.head_dropWhile_not (· != '=') (l := text.toList) (by simp [hrest])
      simpa [hrest] using hhead
    split at haccepted
    · cases haccepted
    · next hnonempty =>
      obtain ⟨rfl, rfl⟩ := Prod.mk.inj (Option.some.inj haccepted)
      refine ⟨fun hname => hnonempty ?_, fun hmem => ?_, ?_⟩
      · rwa [← String.toList_inj, String.toList_ofList, String.toList_empty, ← List.isEmpty_iff]
          at hname
      · rw [String.toList_ofList] at hmem
        simpa using List.mem_takeWhile_imp hmem
      · rw [hrest, hc] at hparts
        simpa [← String.toList_inj] using hparts.symm
  · cases haccepted

namespace Given

variable {given final : Given} {switch : Switch} {α β : Type}

/-- The assignment that an option gives, if it is one for assignments. -/
def assigned? (option : Switch × String) : Option (String × String) :=
  if option.1 = .placeholder then assignment? option.2 else none

/-- Take in options one after another. -/
def takeAll (given : Given) (options : List (Switch × String)) : Option Given :=
  options.foldlM (fun given option => given.take option.1 option.2) given

/-- What is given for the first time is stored. -/
theorem exists_of_once {old value : Option α} {store : α → β} {result : β}
    (honce : once old value store = some result) : ∃ stored, store stored = result := by
  rw [once] at honce
  split at honce
  · cases honce
  · obtain ⟨stored, -, hstored⟩ := Option.map_eq_some_iff.mp honce
    exact ⟨stored, hstored⟩

/-- A flag that can be raised is raised. -/
theorem eq_of_raiseFlag {old : Bool} {raised result : β}
    (hraise : raiseFlag old raised = some result) : raised = result := by
  rw [raiseFlag] at hraise
  split at hraise
  · cases hraise
  · exact Option.some.inj hraise

/-- An option for an assignment appends it, and another option leaves the assignments as they are. -/
theorem assignments_take (htaken : given.take switch value = some final) :
    final.assignments = given.assignments ++ (assigned? (switch, value)).toList := by
  cases switch with
  | placeholder =>
    obtain ⟨pair, hpair, rfl⟩ := Option.map_eq_some_iff.mp htaken
    rw [assigned?, if_pos rfl, hpair]
    rfl
  | set =>
    obtain ⟨pair, -, rfl⟩ := Option.map_eq_some_iff.mp htaken
    exact (List.append_nil _).symm
  | raw | placeholdersCheck | strict | verbose =>
    obtain rfl := eq_of_raiseFlag htaken
    exact (List.append_nil _).symm
  | help | version => cases htaken
  | file | document | placeholders | count | seed | format | config =>
    obtain ⟨stored, rfl⟩ := exists_of_once htaken
    exact (List.append_nil _).symm

/-- The assignments of a command are those of its options, in their order. -/
theorem assignments_takeAll {options : List (Switch × String)}
    (htaken : given.takeAll options = some final) :
    final.assignments = given.assignments ++ options.filterMap assigned? := by
  induction options generalizing given with
  | nil =>
    cases htaken
    exact (List.append_nil _).symm
  | cons option options ih =>
    rw [takeAll, List.foldlM_cons] at htaken
    obtain ⟨next, hnext, hrest⟩ := Option.bind_eq_some_iff.mp htaken
    rw [ih hrest, assignments_take hnext, List.append_assoc]
    cases hassigned : assigned? option with
    | none => rw [List.filterMap_cons_none hassigned]; rfl
    | some pair => rw [List.filterMap_cons_some hassigned]; rfl

end Given

namespace Invocation

variable {invocation : Invocation} {files : Files} {settings : Settings} {document : Document}
  {markers : Markers} {refusal : Refusal} {further : Table}

/-- The table of the file of placeholders; the empty one if no such file is given. -/
def GivesFurther (invocation : Invocation) (files : Files) (further : Table) : Prop :=
  match invocation.given.placeholders with
  | some path => placeholdersOf files path = .ok further
  | none => further = .empty

/-- The markers that a command spins with: those of its document, or else those of the settings. -/
def markersOf (document : Document) (settings : Settings) : Except Refusal Markers :=
  match document.markers with
  | some markers => .ok markers
  | none => settings.usableMarkers

/-- The spinner of a document and its markers, over the placeholders of the command. -/
def collect (invocation : Invocation) (files : Files) (document : Document) (markers : Markers) :
    Except CommandFault Spinner := do
  let further ← match invocation.given.placeholders with
    | some path => do pure (← placeholdersOf files path).entries
    | none => pure []
  let table := (document.placeholders.insertAll further).insertAll invocation.given.assignments
  return ⟨document.template, table, markers⟩

/-- The markers are settled first, and then the pairs are collected. -/
theorem spinner_eq (hdocument : invocation.document files = .ok document) :
    invocation.spinner files settings =
      match markersOf document settings with
      | .ok markers => invocation.collect files document markers
      | .error refusal => .error (.spinning (.refused refusal)) := by
  -- what comes after the markers is the same in each case in which there are some
  obtain ⟨template, placeholders, chosen⟩ := document
  rw [spinner, hdocument, markersOf]
  cases chosen with
  | some markers => rfl
  | none =>
    simp only [bind, Except.bind]
    cases settings.usableMarkers <;> rfl

/-- With markers to be had, the spinner is made of the template, the table and the markers. -/
theorem spinner_of_markersOf_eq_ok (hdocument : invocation.document files = .ok document)
    (hfurther : invocation.GivesFurther files further)
    (hmarkers : markersOf document settings = .ok markers) :
    invocation.spinner files settings = .ok ⟨document.template,
      .ofPairs (document.placeholders.entries ++ further.entries ++ invocation.given.assignments),
      markers⟩ := by
  rw [spinner_eq hdocument, hmarkers, ← Table.insertAll_insertAll]
  rw [GivesFurther] at hfurther
  simp only [collect]
  split at hfurther
  · rw [hfurther]
    rfl
  · rw [hfurther]
    rfl

/-- Markers that are refused are the fault of the command. -/
theorem spinner_of_markersOf_eq_error (hdocument : invocation.document files = .ok document)
    (hmarkers : markersOf document settings = .error refusal) :
    invocation.spinner files settings = .error (.spinning (.refused refusal)) := by
  rw [spinner_eq hdocument, hmarkers]

/-- A command whose spinner cannot be made ends with the fault. -/
theorem outcome_of_spinner_eq_error {fault : CommandFault}
    (hsettings : invocation.settings files = .ok settings)
    (hspinner : invocation.spinner files settings = .error fault) (entropy : UInt64) :
    invocation.outcome files entropy = fault.outcome := by
  have hrun : invocation.run files entropy = .error fault := by
    rw [run, hsettings]
    change (invocation.spinner files settings >>= _) = _
    rw [hspinner]
    rfl
  rw [outcome, hrun]

/-- The inputs of a command are layered.

The table is collected from the document, the file of placeholders and the assignments, in this order. The
markers are those of the document, and only if it has none, those of the settings. -/
theorem spinner_layers (hdocument : invocation.document files = .ok document) :
    (∀ text name value, assignment? text = some (name, value) ↔
      name ≠ "" ∧ '=' ∉ name.toList ∧ text = name ++ "=" ++ value) ∧
    (∀ (given : Given) options final, given.takeAll options = some final →
      final.assignments = given.assignments ++ options.filterMap Given.assigned?) ∧
    (∀ further, invocation.GivesFurther files further →
      ∃ table : Table,
        table.Layered document.placeholders further invocation.given.assignments ∧
        (∀ settings markers, document.markers = some markers →
          invocation.spinner files settings = .ok ⟨document.template, table, markers⟩) ∧
        ∀ settings markers, document.markers = none → settings.usableMarkers = .ok markers →
          invocation.spinner files settings = .ok ⟨document.template, table, markers⟩) ∧
    ∀ settings refusal, document.markers = none → settings.usableMarkers = .error refusal →
      invocation.spinner files settings = .error (.spinning (.refused refusal)) ∧
      (invocation.settings files = .ok settings → ∀ entropy,
        invocation.outcome files entropy = (CommandFault.spinning (.refused refusal)).outcome) := by
  refine ⟨fun text name value => assignment?_eq_some_iff,
    fun given options final => Given.assignments_takeAll, fun further hfurther => ?_, ?_⟩
  · refine ⟨_, Table.layered_ofPairs document.placeholders further invocation.given.assignments,
      fun settings markers hmarkers => ?_, fun settings markers hnone hmarkers => ?_⟩
    · exact spinner_of_markersOf_eq_ok hdocument hfurther (by rw [markersOf, hmarkers])
    · exact spinner_of_markersOf_eq_ok hdocument hfurther (by rw [markersOf, hnone, hmarkers])
  · intro settings refusal hnone hrefusal
    have hspinner : invocation.spinner files settings = .error (.spinning (.refused refusal)) :=
      spinner_of_markersOf_eq_error hdocument (by rw [markersOf, hnone, hrefusal])
    exact ⟨hspinner, fun hsettings => outcome_of_spinner_eq_error hsettings hspinner⟩

/-- The document has markers, so those of the settings may be empty. An assignment beats the file and the
document, the file beats the document, and a name stands where the document or the file has it. -/
theorem spinner_layers_overlap :
    let files : Files := fun path =>
      if path = "d.json" then some ("\x7b\"template\": \"~a~\", \"placeholders\": " ++
        "\x7b\"a\": \"1\", \"b\": \"2\"\x7d, \"markers\": \x7b\"open\": \"(\", " ++
        "\"close\": \")\", \"separator\": \"/\", \"placeholder\": \"~\"\x7d\x7d")
      else if path = "p.json" then some "\x7b\"c\": \"3\", \"b\": \"4\"\x7d"
      else none
    let invocation : Invocation := ⟨.audit,
      { document := some "d.json", placeholders := some "p.json"
        assignments := [("d", "6"), ("a", "5"), ("a", "7=8")] }⟩
    parse ["audit", "-d", "d.json", "-p", "d=6", "--placeholders", "p.json", "-p", "a=5",
      "-p", "a=7=8"] = .ok invocation ∧
    ∃ document, invocation.document files = .ok document ∧
      ∃ spinner, invocation.spinner files { markers := { opening := "" } } = .ok spinner ∧
        spinner.markers.texts = ⟨"(", ")", "/", "~"⟩ ∧
        spinner.placeholders.entries.names = ["a", "b", "c", "d"] ∧
        ["a", "b", "c", "d"].map spinner.placeholders.get? =
          [some "7=8", some "4", some "3", some "6"] := by
  intro files invocation
  have hread : (invocation.document files).map (fun document => (document.placeholders,
      document.markers.map Markers.texts)) =
      .ok (.ofPairs [("a", "1"), ("b", "2")], some ⟨"(", ")", "/", "~"⟩) := by
    decide +kernel
  have hfile : placeholdersOf files "p.json" = .ok (.ofPairs [("c", "3"), ("b", "4")]) := by
    decide +kernel
  cases hdocument : invocation.document files with
  | error fault =>
    rw [hdocument] at hread
    cases hread
  | ok document =>
    rw [hdocument] at hread
    obtain ⟨hplaceholders, hmarkers⟩ := Prod.mk.inj (Except.ok.inj hread)
    obtain ⟨markers, hmarkers, htexts⟩ := Option.map_eq_some_iff.mp hmarkers
    obtain ⟨-, -, hlayers, -⟩ := spinner_layers hdocument
    obtain ⟨table, hlayered, hchosen, -⟩ := hlayers _ hfile
    rw [hplaceholders] at hlayered
    refine ⟨by decide +kernel, document, rfl, _, hchosen _ markers hmarkers, htexts, ?_, ?_⟩
    · rw [hlayered.collected.names]
      rfl
    · simp only [List.map_cons, List.map_nil, hlayered.value]
      rfl

end Invocation

end CommandLine

end Spintax
