import Spintax.Proofs.Calls
import Spintax.Proofs.Reading
import Spintax.Spinner

/-!
# When spinning fails

Spinning resolves the template and then takes the entries of the table in turn. What an entry meets
in its turn is the text as the earlier entries have left it. If its reference occurs there its value
is resolved, and else the value is not looked at. So spinning fails just when it comes to resolve a
text that the structure check finds a fault in, and the fault is that one.

The audit does not ask whether a value resolves: a name is in order for it when it has a value that
is free of the placeholder marker. So a spinner may pass every check and still come to a value that
does not resolve, also to one that the audit never looked up.
-/

namespace Spintax

namespace Sampling

section

variable {α β : Type} {first : Sampling α} {next : α → Sampling β} {tape stuck : Tape}
  {error : SpinError}

section

variable [DecidableEq α] {p : Tape → Prop} [DecidablePred p]

/-- Tapes cannot be compared, but it can be decided what a run gives and what its last tape is like. -/
instance decidableExistsOkAnd (result : EStateM.Result SpinError Tape α) (value : α) :
    Decidable (∃ last, result = .ok value last ∧ p last) :=
  match result with
  | .ok other last => decidable_of_iff (other = value ∧ p last)
      ⟨fun ⟨hvalue, hlast⟩ => ⟨last, congrArg (EStateM.Result.ok · last) hvalue, hlast⟩,
        fun ⟨_, hsame, hlast⟩ => by cases hsame; exact ⟨rfl, hlast⟩⟩
  | .error _ _ => isFalse fun ⟨_, hsame, _⟩ => by cases hsame

/-- It can be decided what a run fails with and what its last tape is like. -/
instance decidableExistsErrorAnd (result : EStateM.Result SpinError Tape α) (error : SpinError) :
    Decidable (∃ last, result = .error error last ∧ p last) :=
  match result with
  | .ok _ _ => isFalse fun ⟨_, hsame, _⟩ => by cases hsame
  | .error other last => decidable_of_iff (other = error ∧ p last)
      ⟨fun ⟨herror, hlast⟩ => ⟨last, congrArg (EStateM.Result.error · last) herror, hlast⟩,
        fun ⟨_, hsame, hlast⟩ => by cases hsame; exact ⟨rfl, hlast⟩⟩

/-- It can be decided what a run gives. -/
instance decidableExistsOk (result : EStateM.Result SpinError Tape α) (value : α) :
    Decidable (∃ last, result = .ok value last) :=
  decidable_of_iff (∃ last, result = .ok value last ∧ True) (by simp only [and_true])

/-- It can be decided what a run fails with. -/
instance decidableExistsError (result : EStateM.Result SpinError Tape α) (error : SpinError) :
    Decidable (∃ last, result = .error error last) :=
  decidable_of_iff (∃ last, result = .error error last ∧ True) (by simp only [and_true])

end

/-- The source answers every choice that a computation asks for. -/
def Answered (computation : Sampling α) (tape : Tape) : Prop :=
  ∀ stuck, computation tape ≠ .error .stalled stuck

/-- A computation with what follows fails when it fails, or when what follows fails at its result. -/
theorem bind_eq_error_iff :
    (first >>= next) tape = .error error stuck ↔
      first tape = .error error stuck ∨
        ∃ value between, first tape = .ok value between ∧
          next value between = .error error stuck := by
  cases hfirst : first tape with
  | ok value between => simp [bind_of_ok hfirst]
  | error other after => simp [bind_of_error hfirst]

/-- What follows a computation has no part in a failure if it never fails. -/
theorem bind_eq_error_iff_of_ok
    (hnext : ∀ value between, ∃ result last, next value between = .ok result last) :
    (first >>= next) tape = .error error stuck ↔ first tape = .error error stuck := by
  rw [bind_eq_error_iff, or_iff_left]
  rintro ⟨value, between, -, hfails⟩
  obtain ⟨result, last, hresult⟩ := hnext value between
  cases hresult.symm.trans hfails

/-- A run over a list fails when a step fails at what the steps before it have made. -/
theorem foldlM_eq_error_iff {step : β → α → Sampling β} {items : List α} {start : β} :
    items.foldlM step start tape = .error error stuck ↔
      ∃ earlier item later value between, items = earlier ++ item :: later ∧
        earlier.foldlM step start tape = .ok value between ∧
        step value item between = .error error stuck := by
  constructor
  · intro hfails
    induction items generalizing start tape with
    | nil => cases hfails
    | cons item rest ih =>
      rw [List.foldlM_cons, bind_eq_error_iff] at hfails
      rcases hfails with hhere | ⟨value, between, hstep, hrest⟩
      · exact ⟨[], item, rest, start, tape, rfl, rfl, hhere⟩
      · obtain ⟨earlier, culprit, later, reached, after, rfl, hearlier, hfails⟩ := ih hrest
        refine ⟨item :: earlier, culprit, later, reached, after, rfl, ?_, hfails⟩
        rw [List.foldlM_cons, bind_of_ok hstep, hearlier]
  · rintro ⟨earlier, item, later, value, between, rfl, hearlier, hfails⟩
    rw [List.foldlM_append, bind_of_ok hearlier, List.foldlM_cons, bind_of_error hfails]

end

/-- From a source that answers, the computation does not stall, and with a result it leaves a source
that answers. -/
structure Proceeds {α : Type} (computation : Sampling α) : Prop where
  answered : ∀ tape : Tape, tape.source.Answering → computation.Answered tape
  answering : ∀ (tape : Tape) (value : α) (last : Tape), tape.source.Answering →
    computation tape = .ok value last → last.source.Answering

namespace Proceeds

variable {α β : Type}

/-- A computation without draws and faults proceeds. -/
theorem pure (value : α) : Proceeds (Pure.pure value) where
  answered := by
    intro tape _ stuck hrun
    cases hrun
  answering := by
    intro tape _ last hsource hrun
    cases hrun
    exact hsource

/-- Reporting an event proceeds. -/
theorem report (event : Event) : Proceeds (Sampling.report event) where
  answered := by
    intro tape _ stuck hrun
    cases hrun
  answering := by
    intro tape _ last hsource hrun
    cases hrun
    exact hsource

/-- A computation and what follows it proceed if each of them does. -/
theorem bind {first : Sampling α} {next : α → Sampling β} (hfirst : first.Proceeds)
    (hnext : ∀ value, (next value).Proceeds) : (first >>= next).Proceeds where
  answered := by
    intro tape hsource stuck hrun
    rcases bind_eq_error_iff.mp hrun with hhere | ⟨value, between, hhere, hrest⟩
    · exact hfirst.answered tape hsource stuck hhere
    · exact (hnext value).answered between (hfirst.answering tape value between hsource hhere) stuck
        hrest
  answering := by
    intro tape result last hsource hrun
    obtain ⟨value, between, hhere, hrest⟩ := exists_of_bind hrun
    exact (hnext value).answering between result last
      (hfirst.answering tape value between hsource hhere) hrest

/-- A run over a list proceeds if every step does. -/
theorem foldlM {step : β → α → Sampling β} (hstep : ∀ value item, (step value item).Proceeds)
    (items : List α) (start : β) : (items.foldlM step start).Proceeds := by
  induction items generalizing start with
  | nil => exact .pure start
  | cons item rest ih =>
    rw [List.foldlM_cons]
    exact (hstep start item).bind ih

end Proceeds

end Sampling

namespace Markers

variable {markers : Markers} {text : String} {tape : Tape}

/-- Resolving stalls, or it ends as the structure check says. -/
theorem resolve_cases (markers : Markers) (text : String) (tape : Tape) :
    (∃ stuck, markers.resolve text tape = .error .stalled stuck) ∨
      (markers.checkPairing text = .ok () ∧
        ∃ output last, markers.resolve text tape = .ok output last) ∨
      ∃ fault last, markers.checkPairing text = .error fault ∧
        markers.resolve text tape = .error (.malformed fault) last := by
  cases hchosen : tape.source.chooseAll? ((markers.calls text).map Call.count) with
  | none => exact .inl (markers.resolve_of_none text hchosen)
  | some chosen =>
    obtain ⟨indices, after⟩ := chosen
    right
    rw [markers.resolve_of_some text hchosen, markers.checkPairing_eq_outcome text indices]
    cases markers.outcome text indices with
    | ok output => exact .inl ⟨rfl, output, _, rfl⟩
    | error fault => exact .inr ⟨fault, _, rfl, rfl⟩

/-- A source that answers does so for all calls of a text. -/
theorem exists_chooseAll?_calls {source : Source} (hanswering : source.Answering) (markers : Markers)
    (text : String) :
    ∃ indices after, source.chooseAll? ((markers.calls text).map Call.count) =
      some (indices, after) := by
  apply hanswering.exists_chooseAll?
  rw [List.forall_mem_map]
  exact count_pos_of_mem_callsFrom (by simp)

/-- Resolving a text stalls just when one of its calls is not answered. -/
theorem resolve_stalls_iff :
    (∃ stuck, markers.resolve text tape = .error .stalled stuck) ↔
      tape.source.chooseAll? ((markers.calls text).map Call.count) = none := by
  constructor
  · rintro ⟨stuck, hstalled⟩
    cases hchosen : tape.source.chooseAll? ((markers.calls text).map Call.count) with
    | none => rfl
    | some chosen =>
      rw [markers.resolve_of_some text hchosen] at hstalled
      cases houtcome : markers.outcome text chosen.1 <;> rw [houtcome] at hstalled <;> cases hstalled
  · exact markers.resolve_of_none text

/-- Resolving a text proceeds. -/
theorem proceeds_resolve (markers : Markers) (text : String) : (markers.resolve text).Proceeds where
  answered := by
    intro tape hsource stuck hstalled
    obtain ⟨indices, after, hchosen⟩ := exists_chooseAll?_calls hsource markers text
    cases hchosen.symm.trans (resolve_stalls_iff.mp ⟨stuck, hstalled⟩)
  answering := by
    intro tape output last hsource hrun
    obtain ⟨indices, after, hchosen⟩ := exists_chooseAll?_calls hsource markers text
    obtain ⟨made, -, -, -, -, rfl⟩ := Source.chooseAll?_eq_some_iff.mp hchosen
    have hlast := markers.resolve_of_some text hchosen
    rw [hrun] at hlast
    cases houtcome : markers.outcome text indices with
    | ok output =>
      rw [houtcome] at hlast
      cases hlast
      exact hsource.skip made.length
    | error fault =>
      rw [houtcome] at hlast
      cases hlast

/-- Applying an entry proceeds. -/
theorem proceeds_substituteEntry (markers : Markers) (text : String) (entry : String × String) :
    (markers.substituteEntry text entry).Proceeds := by
  rw [substituteEntry]
  split
  · apply (markers.proceeds_resolve entry.2).bind
    intro sample
    exact (Sampling.Proceeds.report _).bind fun _ => .pure _
  · exact .pure text

/-- A text that resolves passes the structure check. -/
theorem checkPairing_of_resolve {output : String} {last : Tape}
    (hresolve : markers.resolve text tape = .ok output last) :
    markers.checkPairing text = .ok () := by
  rcases markers.resolve_cases text tape with
    ⟨stuck, hends⟩ | ⟨hsound, -⟩ | ⟨fault, after, -, hends⟩
  · cases hresolve.symm.trans hends
  · exact hsound
  · cases hresolve.symm.trans hends

/-- When resolving fails and does not stall, the fault is the one that the structure check finds. -/
theorem exists_fault_of_resolve {error : SpinError} {stuck : Tape}
    (hfails : markers.resolve text tape = .error error stuck) (hne : error ≠ .stalled) :
    ∃ fault, error = .malformed fault ∧ markers.checkPairing text = .error fault := by
  rcases markers.resolve_cases text tape with
    ⟨after, hends⟩ | ⟨-, output, last, hends⟩ | ⟨fault, after, hfault, hends⟩
  · cases hfails.symm.trans hends
    exact absurd rfl hne
  · cases hfails.symm.trans hends
  · cases hfails.symm.trans hends
    exact ⟨fault, rfl, hfault⟩

/-- Applying an entry fails when its reference occurs and its value does not resolve. -/
theorem substituteEntry_eq_error_iff {entry : String × String} {error : SpinError} {stuck : Tape} :
    markers.substituteEntry text entry tape = .error error stuck ↔
      occursIn (markers.reference entry.1) text = true ∧
        markers.resolve entry.2 tape = .error error stuck := by
  by_cases hoccurs : occursIn (markers.reference entry.1) text = true
  · rw [substituteEntry, if_pos hoccurs, Sampling.bind_eq_error_iff_of_ok, and_iff_right hoccurs]
    exact fun sample between => ⟨_, _, rfl⟩
  · rw [substituteEntry, if_neg hoccurs]
    constructor
    · intro hfails
      cases hfails
    · rintro ⟨hhere, -⟩
      exact absurd hhere hoccurs

end Markers

namespace Table

variable {table : Table} {name : String}

end Table

namespace Spinner

variable {spinner : Spinner} {substitute : Bool} {tape : Tape}

/-- The turn of an entry: spinning has made `text` of the template and the earlier entries. -/
def Turn (spinner : Spinner) (tape : Tape) (entry : String × String) (text : String)
    (between : Tape) : Prop :=
  ∃ resolved first earlier later,
    spinner.markers.resolve spinner.template tape = .ok resolved first ∧
    spinner.placeholders.entries = earlier ++ entry :: later ∧
    earlier.foldlM spinner.markers.substituteEntry resolved first = .ok text between

/-- Spinning comes to resolve the template, and then, if it is to substitute, the value of each
entry whose reference occurs in its turn. -/
inductive Resolves (spinner : Spinner) (substitute : Bool) (tape : Tape) :
    String → Tape → Prop where
  | template : Resolves spinner substitute tape spinner.template tape
  | value {entry : String × String} {text : String} {between : Tape}
      (hsubstitute : substitute = true) (hturn : spinner.Turn tape entry text between)
      (hoccurs : occursIn (spinner.markers.reference entry.1) text = true) :
      Resolves spinner substitute tape entry.2 between

/-- Spinning without the report: resolve the template, and substitute if asked to. -/
def sample (spinner : Spinner) (substitute : Bool) : Sampling String := do
  let resolved ← spinner.markers.resolve spinner.template
  if substitute then spinner.markers.substitute spinner.placeholders resolved else pure resolved

/-- Spinning is sampling, and a report when the sample is made. -/
theorem spin_eq_sample (spinner : Spinner) (substitute : Bool) :
    spinner.spin substitute = (do
      let output ← spinner.sample substitute
      Sampling.report (.spun spinner.template.utf8ByteSize output.utf8ByteSize substitute)
      pure output) := by
  cases substitute <;> simp [spin, sample]

/-- The report has no part in a failure. -/
theorem spin_eq_error_iff_sample {error : SpinError} {stuck : Tape} :
    spinner.spin substitute tape = .error error stuck ↔
      spinner.sample substitute tape = .error error stuck := by
  rw [spin_eq_sample]
  exact Sampling.bind_eq_error_iff_of_ok fun _ _ => ⟨_, _, rfl⟩

/-- Spinning fails when it comes to resolve a text that does not resolve. -/
theorem spin_eq_error_iff {error : SpinError} {stuck : Tape} :
    spinner.spin substitute tape = .error error stuck ↔
      ∃ text between, spinner.Resolves substitute tape text between ∧
        spinner.markers.resolve text between = .error error stuck := by
  rw [spin_eq_error_iff_sample, sample, Sampling.bind_eq_error_iff]
  constructor
  · rintro (hfails | ⟨resolved, first, hresolve, hfails⟩)
    · exact ⟨_, _, .template, hfails⟩
    · rcases substitute with _ | _
      · cases hfails
      obtain ⟨earlier, entry, later, text, between, hentries, hearlier, hfails⟩ :=
        Sampling.foldlM_eq_error_iff.mp hfails
      obtain ⟨hoccurs, hfails⟩ := Markers.substituteEntry_eq_error_iff.mp hfails
      have hturn : spinner.Turn tape entry text between :=
        ⟨resolved, first, earlier, later, hresolve, hentries, hearlier⟩
      exact ⟨_, _, .value rfl hturn hoccurs, hfails⟩
  · rintro ⟨text, between, _ | ⟨hsubstitute, hturn, hoccurs⟩, hfails⟩
    · exact .inl hfails
    · obtain ⟨resolved, first, earlier, later, hresolve, hentries, hearlier⟩ := hturn
      refine .inr ⟨resolved, first, hresolve, ?_⟩
      rw [if_pos hsubstitute, Markers.substitute, Sampling.foldlM_eq_error_iff]
      exact ⟨earlier, _, later, _, between, hentries, hearlier,
        Markers.substituteEntry_eq_error_iff.mpr ⟨hoccurs, hfails⟩⟩

/-- Taking a sample proceeds. -/
theorem proceeds_sample (spinner : Spinner) (substitute : Bool) :
    (spinner.sample substitute).Proceeds := by
  apply (spinner.markers.proceeds_resolve spinner.template).bind
  intro resolved
  split
  · exact .foldlM spinner.markers.proceeds_substituteEntry _ resolved
  · exact .pure resolved

/-- Spinning proceeds. -/
theorem proceeds_spin (spinner : Spinner) (substitute : Bool) :
    (spinner.spin substitute).Proceeds := by
  rw [spin_eq_sample]
  apply (spinner.proceeds_sample substitute).bind
  intro output
  exact (Sampling.Proceeds.report _).bind fun _ => .pure output

/-- Adding samples to those made before proceeds. -/
theorem proceeds_spinOnto (spinner : Spinner) (substitute : Bool) (count : Nat)
    (made : List String) : (spinner.spinOnto substitute count made).Proceeds := by
  induction count generalizing made with
  | zero => exact .pure made
  | succ count ih => exact (spinner.proceeds_spin substitute).bind fun output => ih (output :: made)

/-- A source that answers every call for a range that is not empty answers those of a spin. -/
theorem answered_spin (hanswering : tape.source.Answering) :
    (spinner.spin substitute).Answered tape :=
  (spinner.proceeds_spin substitute).answered tape hanswering

/-- A source that answers every call for a range that is not empty answers those of a batch. -/
theorem answered_spinBatch (hanswering : tape.source.Answering) (count : Nat) :
    (spinner.spinBatch count substitute).Answered tape :=
  ((spinner.proceeds_spinOnto substitute count []).bind fun made => .pure made.reverse).answered tape
    hanswering

section

variable {entry : String × String} {text : String} {between : Tape}

/-- An entry that has its turn is in the table. -/
theorem Turn.mem_entries (hturn : spinner.Turn tape entry text between) :
    entry ∈ spinner.placeholders.entries := by
  obtain ⟨resolved, first, earlier, later, -, hentries, -⟩ := hturn
  rw [hentries]
  exact List.mem_append_right earlier List.mem_cons_self

end

end Spinner

end Spintax
