import Spintax.Spinner

/-!
# Sessions

A session is a spinner that is used and changed over time together with its random source and with
the events it has reported. Every operation answers or fails; one that fails leaves template,
placeholders and markers as they were.
-/

namespace Spintax

/-- A spinner at work. -/
structure Session where
  spinner : Spinner
  tape : Tape
  /-- The draws made from sources that have been replaced since. -/
  spent : Nat := 0

/-- What can be asked of a session. -/
inductive Operation where
  | setTemplate (template : String)
  | setPlaceholders (pairs : List (String × String))
  | setPlaceholdersJson (value : Json)
  | setMarkers (texts : MarkerTexts)
  | setMarkerPairs (pairs : List (String × String))
  | setMarkersJson (value : Json)
  | setSource (source : Source)
  | spin (substitute : Bool)
  | spinBatch (count : Nat) (substitute : Bool)
  | resolve (text : String)
  | substitute (text : String)
  | validate (checkPlaceholders : Bool)
  | checkPairing
  | audit

/-- What an operation that succeeds answers. -/
inductive Answer where
  | changed
  | output (text : String)
  | outputs (texts : List String)
  | valid (value : Bool)
  | sound
  | names (invalid : List String)
deriving DecidableEq, Repr

namespace Session

/-- All draws made so far. -/
def draws (session : Session) : Nat :=
  session.spent + session.tape.source.position

/-- Change the spinner. -/
def withSpinner (session : Session) (change : Spinner → Spinner) :
    Except SpinError Answer × Session :=
  (.ok .changed, { session with spinner := change session.spinner })

/-- Change the spinner by a value that may be refused. -/
def install {α : Type} (session : Session) (value : Except Refusal α)
    (change : α → Spinner → Spinner) : Except SpinError Answer × Session :=
  match value with
  | .ok value => session.withSpinner (change value)
  | .error refusal => (.error (.refused refusal), session)

/-- Go on with another source, and keep count of the draws made from the one before. -/
def withSource (session : Session) (source : Source) : Session :=
  { session with
    tape := { session.tape with source := source }
    spent := session.draws }

/-- Run a computation on the tape of the session. -/
def run {α : Type} (session : Session) (computation : Sampling α) (answer : α → Answer) :
    Except SpinError Answer × Session :=
  match computation session.tape with
  | .ok value tape => (.ok (answer value), { session with tape := tape })
  | .error fault tape => (.error fault, { session with tape := tape })

/-- Perform one operation. -/
def perform (session : Session) : Operation → Except SpinError Answer × Session
  | .setTemplate template => session.withSpinner fun spinner =>
    { spinner with template := template }
  | .setPlaceholders pairs =>
    session.withSpinner fun spinner => { spinner with placeholders := .ofPairs pairs }
  | .setPlaceholdersJson value =>
    session.install (Table.ofJson value) fun table spinner =>
      { spinner with placeholders := table }
  | .setMarkers texts =>
    session.install (Markers.ofTexts texts) fun markers spinner =>
      { spinner with markers := markers }
  | .setMarkerPairs pairs =>
    session.install (Markers.ofPairs pairs) fun markers spinner =>
      { spinner with markers := markers }
  | .setMarkersJson value =>
    session.install (Markers.ofJson value) fun markers spinner =>
      { spinner with markers := markers }
  | .setSource source => (.ok .changed, session.withSource source)
  | .spin substitute => session.run (session.spinner.spin substitute) .output
  | .spinBatch count substitute =>
    session.run (session.spinner.spinBatch count substitute) .outputs
  | .resolve text => session.run (session.spinner.markers.resolve text) .output
  | .substitute text =>
    session.run (session.spinner.markers.substitute session.spinner.placeholders text) .output
  | .validate checkPlaceholders =>
    session.run (session.spinner.validate checkPlaceholders) .valid
  | .checkPairing =>
    match session.spinner.checkPairing with
    | .ok _ => (.ok .sound, session)
    | .error fault => (.error (.malformed fault), session)
  | .audit => (.ok (.names session.spinner.audit), session)

/-- Perform operations one after another, whatever their answers. -/
def performAll (session : Session) (operations : List Operation) : Session :=
  operations.foldl (fun session operation => (session.perform operation).2) session

end Session

end Spintax
