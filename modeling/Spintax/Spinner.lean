import Spintax.Substitution

/-!
# Spinners

A spinner is a template with its placeholders and markers. Spinning resolves the template and then,
if asked to, substitutes the placeholders. Nothing is checked beforehand: validation, the structure
check and the audit are separate questions.
-/

namespace Spintax

/-- A template with its placeholder table and its marker set. -/
structure Spinner where
  template : String := ""
  placeholders : Table := .empty
  markers : Markers := .default
deriving DecidableEq

namespace Spinner

/-- Produce one sample of the template. -/
def spin (spinner : Spinner) (substitute : Bool) : Sampling String := do
  let resolved ← spinner.markers.resolve spinner.template
  let output ← if substitute then spinner.markers.substitute spinner.placeholders resolved
    else pure resolved
  Sampling.report (.spun spinner.template.utf8ByteSize output.utf8ByteSize substitute)
  pure output

/-- Add `count` samples to those made before, the last one first. -/
def spinOnto (spinner : Spinner) (substitute : Bool) : Nat → List String → Sampling (List String)
  | 0, made => pure made
  | count + 1, made => do
    let output ← spinner.spin substitute
    spinner.spinOnto substitute count (output :: made)

/-- Produce a number of samples, up to the first that fails. -/
def spinBatch (spinner : Spinner) (count : Nat) (substitute : Bool) : Sampling (List String) := do
  let made ← spinner.spinOnto substitute count []
  pure made.reverse

/-- Opening markers minus closing markers. -/
def balance (spinner : Spinner) : Int :=
  spinner.markers.balance spinner.template

/-- Check that the group markers of the template pair up. -/
def checkPairing (spinner : Spinner) : Except Malformed Unit :=
  spinner.markers.checkPairing spinner.template

/-- The names that the template refers to and that cannot be substituted. -/
def audit (spinner : Spinner) : List String :=
  spinner.markers.audit spinner.placeholders spinner.template

/-- The event that validation reports when it fails: an unbalanced template first, then, if they
are to be checked, references that cannot be substituted. -/
def objection? (spinner : Spinner) (checkPlaceholders : Bool) : Option Event :=
  let balance := spinner.balance
  let names := if checkPlaceholders then spinner.audit else []
  if balance ≠ 0 then some (.unbalanced balance)
  else if names ≠ [] then some (.unusable names)
  else none

/-- Whether the template balances and, if they are to be checked, all its references can be
substituted. -/
def isValid (spinner : Spinner) (checkPlaceholders : Bool) : Bool :=
  (spinner.objection? checkPlaceholders).isNone

/-- Validate and report the objection, if there is one. -/
def validate (spinner : Spinner) (checkPlaceholders : Bool) : Sampling Bool :=
  match spinner.objection? checkPlaceholders with
  | some event => do
    Sampling.report event
    pure false
  | none => pure true

/-- A spinner is valid when its template balances and, if they are to be checked, the audit has no
complaints. -/
theorem isValid_iff {spinner : Spinner} {checkPlaceholders : Bool} :
    spinner.isValid checkPlaceholders = true ↔
      spinner.balance = 0 ∧ (checkPlaceholders = true → spinner.audit = []) := by
  by_cases hbalance : spinner.balance = 0
  · cases checkPlaceholders with
    | false => simp [isValid, objection?, hbalance]
    | true => by_cases haudit : spinner.audit = [] <;> simp [isValid, objection?, hbalance, haudit]
  · simp [isValid, objection?, hbalance]

/-- Validation answers whether the spinner is valid. It may report an event, and draws nothing. -/
theorem exists_validate_eq (spinner : Spinner) (checkPlaceholders : Bool) (tape : Tape) :
    ∃ events, spinner.validate checkPlaceholders tape =
      .ok (spinner.isValid checkPlaceholders) { tape with events := events } := by
  rw [validate, isValid]
  cases spinner.objection? checkPlaceholders with
  | some event => exact ⟨event :: tape.events, rfl⟩
  | none => exact ⟨tape.events, rfl⟩

end Spinner

end Spintax
