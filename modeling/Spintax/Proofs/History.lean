import Spintax.Document
import Spintax.Session

/-!
# The history of a session

Template, table and markers of a session can be read off its history: each is what the last
operation that set it and succeeded has given it, or what the session began with. An operation that
fails sets nothing. One that refuses its input does not even touch the random source, and one that
samples touches nothing else.

An operation that sets something brings one change, or a refusal. What a change does is said once
for each part of the spinner, and the three parts then follow the history for the same reason. That
no marker is empty and no name is in the table twice is kept by the types of marker sets and tables.
-/

namespace Spintax

/-- How a session may begin. -/
inductive Start where
  | default
  | template (text : String)
  | parts (text : String) (placeholders : Table) (markers : Markers)
  | document (source : Document)

/-- The spinner that a session begins with. -/
def Start.spinner : Start → Spinner
  | .default => {}
  | .template text => { template := text }
  | .parts text placeholders markers => ⟨text, placeholders, markers⟩
  | .document source => source.spinner

/-- A new value for one part of a spinner. -/
inductive Change where
  | template (text : String)
  | placeholders (table : Table)
  | markers (set : Markers)

/-- Put the new value in place of the old one. -/
def Change.apply : Change → Spinner → Spinner
  | .template text, spinner => { spinner with template := text }
  | .placeholders table, spinner => { spinner with placeholders := table }
  | .markers set, spinner => { spinner with markers := set }

namespace Operation

/-- What an operation that sets a part of the spinner makes of its input: a change or a refusal. -/
def change? : Operation → Option (Except Refusal Change)
  | .setTemplate text => some (.ok (.template text))
  | .setPlaceholders pairs => some (.ok (.placeholders (.ofPairs pairs)))
  | .setPlaceholdersJson value => some ((Table.ofJson value).map .placeholders)
  | .setMarkers texts => some ((Markers.ofTexts texts).map .markers)
  | .setMarkerPairs pairs => some ((Markers.ofPairs pairs).map .markers)
  | .setMarkersJson value => some ((Markers.ofJson value).map .markers)
  | _ => none

/-- The change that an operation brings, if it sets a part of the spinner and accepts its input. -/
def accepted? (operation : Operation) : Option Change :=
  operation.change?.bind Except.toOption

/-- Operations that draw from the random source. -/
def IsSampling : Operation → Prop
  | .spin _ => True
  | .spinBatch _ _ => True
  | .resolve _ => True
  | .substitute _ => True
  | _ => False

/-- Operations that only look at the spinner. -/
def IsQuestion : Operation → Prop
  | .validate _ => True
  | .checkPairing => True
  | .audit => True
  | _ => False

end Operation

/-- A part of a spinner: how it is read, and its new value in a change of this part. -/
structure Part (α : Type) where
  read : Spinner → α
  value? : Change → Option α
  read_apply (change : Change) (spinner : Spinner) :
    read (change.apply spinner) = (value? change).getD (read spinner)

namespace Part

/-- The template. -/
def template : Part String where
  read := Spinner.template
  value?
    | .template text => some text
    | _ => none
  read_apply change _ := by cases change <;> rfl

/-- The placeholder table. -/
def placeholders : Part Table where
  read := Spinner.placeholders
  value?
    | .placeholders table => some table
    | _ => none
  read_apply change _ := by cases change <;> rfl

/-- The marker set. -/
def markers : Part Markers where
  read := Spinner.markers
  value?
    | .markers set => some set
    | _ => none
  read_apply change _ := by cases change <;> rfl

variable {α : Type} (part : Part α)

/-- What an operation has given to a part: its new value, if the operation succeeded and sets this
part. -/
def given? (entry : Operation × Except SpinError Answer) : Option α :=
  if entry.2.isOk then entry.1.accepted?.bind part.value? else none

/-- The last value that a part has been given, or else the one at the start. -/
def last (start : α) (history : List (Operation × Except SpinError Answer)) : α :=
  (history.filterMap part.given?).getLast?.getD start

/-- What comes first is the start for what comes later. -/
theorem last_cons (start : α) (entry : Operation × Except SpinError Answer)
    (history : List (Operation × Except SpinError Answer)) :
    part.last start (entry :: history) = part.last ((part.given? entry).getD start) history := by
  rw [last, last, List.filterMap_cons]
  cases part.given? entry with
  | none => rfl
  | some value => rw [List.getLast?_cons, Option.getD_some, Option.getD_some]

end Part

namespace Session

/-- The operations with the answers that they get, one after another. -/
def history (session : Session) : List Operation → List (Operation × Except SpinError Answer)
  | [] => []
  | operation :: rest =>
    (operation, (session.perform operation).1) :: (session.perform operation).2.history rest

variable (session : Session) {operation : Operation}

/-- It does not matter whether what is installed is made before or afterwards. -/
theorem install_map {α β : Type} (value : Except Refusal α) (make : α → β)
    (change : β → Spinner → Spinner) :
    session.install (value.map make) change = session.install value (change ∘ make) := by
  cases value <;> rfl

/-- An operation that sets a part of the spinner installs its change. -/
theorem perform_of_change {outcome : Except Refusal Change}
    (hchange : operation.change? = some outcome) :
    session.perform operation = session.install outcome Change.apply := by
  cases operation with
  | setTemplate text => cases hchange; rfl
  | setPlaceholders pairs => cases hchange; rfl
  | setPlaceholdersJson value => cases hchange; rw [install_map]; rfl
  | setMarkers texts => cases hchange; rw [install_map]; rfl
  | setMarkerPairs pairs => cases hchange; rw [install_map]; rfl
  | setMarkersJson value => cases hchange; rw [install_map]; rfl
  | _ => cases hchange

/-- A computation changes the tape and nothing else. -/
theorem exists_run_eq {α : Type} (computation : Sampling α) (answer : α → Answer) :
    ∃ tape, (session.run computation answer).2 = { session with tape := tape } := by
  rw [run]
  cases computation session.tape with
  | ok value tape => exact ⟨tape, rfl⟩
  | error fault tape => exact ⟨tape, rfl⟩

/-- Operations that sample change the tape and nothing else. -/
theorem exists_perform_eq_of_isSampling (hsampling : operation.IsSampling) :
    ∃ tape, (session.perform operation).2 = { session with tape := tape } := by
  cases operation with
  | spin substitute => exact session.exists_run_eq _ _
  | spinBatch count substitute => exact session.exists_run_eq _ _
  | resolve text => exact session.exists_run_eq _ _
  | substitute text => exact session.exists_run_eq _ _
  | _ => cases hsampling

/-- Questions change the events and nothing else. -/
theorem exists_perform_eq_of_isQuestion (hquestion : operation.IsQuestion) :
    ∃ events, (session.perform operation).2 =
      { session with tape := { session.tape with events := events } } := by
  cases operation with
  | validate checkPlaceholders =>
    obtain ⟨events, hvalidate⟩ :=
      session.spinner.exists_validate_eq checkPlaceholders session.tape
    refine ⟨events, ?_⟩
    rw [perform, run, hvalidate]
  | checkPairing =>
    refine ⟨session.tape.events, ?_⟩
    rw [perform]
    cases session.spinner.checkPairing <;> rfl
  | audit => exact ⟨session.tape.events, rfl⟩
  | _ => cases hquestion

/-- An operation that sets no part leaves the spinner as it is. -/
theorem spinner_perform_of_none (hnone : operation.change? = none) :
    (session.perform operation).2.spinner = session.spinner := by
  have hkind : operation.IsSampling ∨ operation.IsQuestion ∨
      ∃ source, operation = .setSource source := by
    cases operation with
    | spin | spinBatch | resolve | substitute => exact .inl trivial
    | validate | checkPairing | audit => exact .inr (.inl trivial)
    | setSource source => exact .inr (.inr ⟨source, rfl⟩)
    | _ => cases hnone
  rcases hkind with hsampling | hquestion | ⟨source, rfl⟩
  · obtain ⟨tape, hafter⟩ := session.exists_perform_eq_of_isSampling hsampling
    rw [hafter]
  · obtain ⟨events, hafter⟩ := session.exists_perform_eq_of_isQuestion hquestion
    rw [hafter]
  · rfl

/-- A part is afterwards what the operation has given to it, or what it was. -/
theorem read_perform {α : Type} (part : Part α) (operation : Operation) :
    part.read (session.perform operation).2.spinner =
      (part.given? (operation, (session.perform operation).1)).getD
        (part.read session.spinner) := by
  rw [Part.given?, Operation.accepted?]
  cases hchange : operation.change? with
  | none =>
    rw [session.spinner_perform_of_none hchange]
    simp
  | some outcome =>
    rw [session.perform_of_change hchange]
    cases outcome with
    | ok change => exact part.read_apply change session.spinner
    | error refusal => rfl

/-- A part is in the end what it has been given last. -/
theorem read_performAll {α : Type} (part : Part α) (operations : List Operation) :
    part.read (session.performAll operations).spinner =
      part.last (part.read session.spinner) (session.history operations) := by
  induction operations generalizing session with
  | nil => rfl
  | cons operation rest ih =>
    rw [history, Part.last_cons, ← session.read_perform]
    exact ih _

/-- An operation that fails leaves the spinner as it is. -/
theorem spinner_perform_of_error {error : SpinError}
    (hfails : (session.perform operation).1 = .error error) :
    (session.perform operation).2.spinner = session.spinner := by
  cases hchange : operation.change? with
  | none => exact session.spinner_perform_of_none hchange
  | some outcome =>
    rw [session.perform_of_change hchange] at hfails ⊢
    cases outcome with
    | ok change => cases hfails
    | error refusal => rfl

/-- The spinner of a session is what its operations have made of it.

Each part is what the last operation that set it and succeeded has given it, no marker is empty, and no name
is in the table twice. Operations that fail leave the spinner alone, and questions the random source too. -/
theorem performAll_follows_history (start : Start) (tape : Tape) (operations : List Operation) :
    let first : Session := { spinner := start.spinner, tape := tape }
    let reached := first.performAll operations
    ((∀ role, reached.spinner.markers.get role ≠ "") ∧
      reached.spinner.placeholders.entries.names.Nodup) ∧
    (reached.spinner.template =
        Part.template.last start.spinner.template (first.history operations) ∧
      reached.spinner.placeholders =
        Part.placeholders.last start.spinner.placeholders (first.history operations) ∧
      reached.spinner.markers =
        Part.markers.last start.spinner.markers (first.history operations)) ∧
    ∀ operation,
      (∀ change, operation.change? = some (.ok change) → reached.perform operation =
        (.ok .changed, { reached with spinner := change.apply reached.spinner })) ∧
      (∀ refusal, operation.change? = some (.error refusal) →
        reached.perform operation = (.error (.refused refusal), reached)) ∧
      (∀ error, (reached.perform operation).1 = .error error →
        (reached.perform operation).2.spinner = reached.spinner) ∧
      (operation.IsSampling →
        ∃ tape, (reached.perform operation).2 = { reached with tape := tape }) ∧
      (operation.IsQuestion → ∃ events, (reached.perform operation).2 =
        { reached with tape := { reached.tape with events := events } }) := by
  intro first reached
  refine ⟨⟨reached.spinner.markers.get_ne_empty, reached.spinner.placeholders.nodup⟩,
    ⟨first.read_performAll .template operations, first.read_performAll .placeholders operations,
      first.read_performAll .markers operations⟩,
    fun operation => ⟨fun change => ?_, fun refusal => ?_, fun error => ?_, ?_, ?_⟩⟩
  · exact reached.perform_of_change
  · exact reached.perform_of_change
  · exact reached.spinner_perform_of_error
  · exact reached.exists_perform_eq_of_isSampling
  · exact reached.exists_perform_eq_of_isQuestion

/-- Markers that are refused and a text that does not resolve leave no trace in what the session has
been given, and neither do markers that are refused afterwards. -/
theorem performAll_follows_history_refused :
    let first : Session :=
      { spinner := (Start.template "a").spinner, tape := { source := .ofList [] } }
    let reached := first.performAll [.setTemplate "\x7bb|c\x7d", .setMarkerPairs [("open", "<")],
      .setPlaceholders [("n", "1"), ("n", "2")], .spin true, .resolve "\x7d"]
    reached.spinner.template = "\x7bb|c\x7d" ∧ reached.spinner.placeholders.entries = [("n", "2")] ∧
      reached.spinner.markers = .default ∧
      reached.perform (.setMarkers ⟨"", "]", "|", "~"⟩) =
        (.error (.refused (.emptyMarker .opening)), reached) := by
  intro first reached
  obtain ⟨-, ⟨htemplate, hplaceholders, hmarkers⟩, hnext⟩ :=
    performAll_follows_history (.template "a") { source := .ofList [] }
      [.setTemplate "\x7bb|c\x7d", .setMarkerPairs [("open", "<")],
        .setPlaceholders [("n", "1"), ("n", "2")], .spin true, .resolve "\x7d"]
  refine ⟨htemplate.trans (by decide +kernel), ?_, hmarkers.trans (by decide +kernel), (hnext _).2.1 _ rfl⟩
  exact (congrArg Table.entries hplaceholders).trans (by decide +kernel)

end Session

end Spintax
