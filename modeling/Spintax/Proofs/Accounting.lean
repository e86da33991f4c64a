import Mathlib.Algebra.GroupWithZero.Nat
import Mathlib.Data.List.Nodup
import Spintax.Proofs.Log

/-!
# The log of a spin accounts for all its work

A spin logs the groups of its template. If it substitutes, it then logs for each entry that is used,
in table order, the groups of the value and the name. Its last event is the one that gives the
lengths. A spin that fails has logged the stages before, and the groups of the text in which it fails
as far as they were resolved. An entry is used when its reference occurs in the text as it is in its
turn; which entries these are may depend on everything chosen before, so the account is taken by
following the table entry by entry.
-/

namespace Spintax

/-- An entry of a table that is used, with the groups that are resolved in its value. -/
structure Insertion where
  entry : String × String
  groups : List (Call × Nat)

/-- The events of a value that is put in: its groups, and then its name. -/
def Insertion.log (insertion : Insertion) : List Event :=
  reports insertion.groups ++ [.substituting insertion.entry.1]

/-- The events of a template and of the values that are put in, in their order. -/
def workLog (groups : List (Call × Nat)) (insertions : List Insertion) : List Event :=
  reports groups ++ insertions.flatMap Insertion.log

/-- An insertion that tells of its value what happens when this resolves: every group is resolved, and
there is no fault. -/
structure Insertion.Resolved (markers : Markers) (insertion : Insertion) : Prop where
  groups_eq : insertion.groups.map Prod.fst = markers.calls insertion.entry.2
  sound : markers.checkPairing insertion.entry.2 = .ok ()

section

variable {groups : List (Call × Nat)} {insertions : List Insertion} {event : Event}

/-- The events of groups tell of calls. -/
theorem eq_report_of_mem_reports (hmem : event ∈ reports groups) :
    ∃ call index, event = Call.report call index := by
  obtain ⟨group, -, rfl⟩ := List.mem_map.mp hmem
  exact ⟨group.1, group.2, rfl⟩

/-- The events of the stages, and of groups behind them, tell of calls or of the names of entries. -/
theorem report_or_substituting_of_mem {made : List (Call × Nat)}
    (hmem : event ∈ workLog groups insertions ++ reports made) :
    (∃ call index, event = Call.report call index) ∨
      ∃ insertion ∈ insertions, event = .substituting insertion.entry.1 := by
  rw [workLog, List.append_assoc] at hmem
  rcases List.mem_append.mp hmem with hmem | hmem
  · exact .inl (eq_report_of_mem_reports hmem)
  · rcases List.mem_append.mp hmem with hmem | hmem
    · obtain ⟨insertion, hinsertion, hmem⟩ := List.mem_flatMap.mp hmem
      rcases List.mem_append.mp hmem with hmem | hmem
      · exact .inl (eq_report_of_mem_reports hmem)
      · exact .inr ⟨insertion, hinsertion, List.mem_singleton.mp hmem⟩
    · exact .inl (eq_report_of_mem_reports hmem)

/-- The stages make as many choices as there are groups in them. -/
theorem length_choices_workLog (groups : List (Call × Nat)) (insertions : List Insertion) :
    (choices (workLog groups insertions)).length =
      groups.length + (insertions.map fun insertion => insertion.groups.length).sum := by
  have hinsertions : (choices (insertions.flatMap Insertion.log)).length =
      (insertions.map fun insertion => insertion.groups.length).sum := by
    induction insertions with
    | nil => rfl
    | cons insertion rest ih =>
      rw [List.flatMap_cons, choices_append, List.length_append, ih, Insertion.log, choices_append,
        choices_reports, List.map_cons, List.sum_cons]
      simp [choices, Event.choice?]
  rw [workLog, choices_append, List.length_append, hinsertions, choices_reports, List.length_map]

end

namespace Markers

variable {markers : Markers} {text next current : String} {tape between last : Tape}
  {entry : String × String} {entries : Entries String}

/-- Applied to the text, the entries use one of them: its reference occurs in what the entries before
it have made of the text. -/
def Uses (markers : Markers) (entries : Entries String) (text : String) (tape : Tape)
    (entry : String × String) : Prop :=
  ∃ earlier later current between, entries = earlier ++ entry :: later ∧
    earlier.foldlM markers.substituteEntry text tape = .ok current between ∧
    occursIn (markers.reference entry.1) current = true

/-- An entry is used in front, or behind what the first one makes of the text. -/
theorem uses_cons_iff {first : String × String}
    (hfirst : markers.substituteEntry text first tape = .ok next between) :
    markers.Uses (first :: entries) text tape entry ↔
      entry = first ∧ occursIn (markers.reference first.1) text = true ∨
        markers.Uses entries next between entry := by
  constructor
  · rintro ⟨_ | ⟨other, earlier⟩, later, current, middle, hentries, hearlier, hoccurs⟩
    · obtain ⟨rfl, -⟩ := List.cons.inj hentries
      cases hearlier
      exact .inl ⟨rfl, hoccurs⟩
    · obtain ⟨rfl, htail⟩ := List.cons.inj hentries
      rw [List.foldlM_cons, Sampling.bind_of_ok hfirst] at hearlier
      exact .inr ⟨earlier, later, current, middle, htail, hearlier, hoccurs⟩
  · rintro (⟨rfl, hoccurs⟩ | ⟨earlier, later, current, middle, rfl, hearlier, hoccurs⟩)
    · exact ⟨[], entries, text, tape, rfl, rfl, hoccurs⟩
    · refine ⟨first :: earlier, later, current, middle, rfl, ?_, hoccurs⟩
      rw [List.foldlM_cons, Sampling.bind_of_ok hfirst, hearlier]

/-- An entry whose reference occurs is put in and logged; any other leaves everything as it is. -/
theorem substituteEntry_log (hrun : markers.substituteEntry text entry tape = .ok next between) :
    occursIn (markers.reference entry.1) text = true ∧
        (∃ insertion : Insertion, insertion.entry = entry ∧ insertion.Resolved markers ∧
          Logged tape insertion.log between) ∨
      occursIn (markers.reference entry.1) text = false ∧ between = tape := by
  cases hoccurs : occursIn (markers.reference entry.1) text with
  | true =>
    rw [substituteEntry, if_pos hoccurs] at hrun
    obtain ⟨sample, after, hresolve, hrun⟩ := Sampling.exists_of_bind hrun
    cases hrun
    obtain ⟨groups, hcalls, hlogged⟩ := resolve_log_of_ok hresolve
    exact .inl ⟨rfl, ⟨entry, groups⟩, rfl, ⟨hcalls, checkPairing_of_resolve hresolve⟩,
      hlogged.append (.report rfl after)⟩
  | false =>
    rw [substituteEntry, hoccurs, if_neg Bool.false_ne_true] at hrun
    cases hrun
    exact .inr ⟨rfl, rfl⟩

/-- Applying entries logs those that are used, in their order. -/
theorem foldlM_log (hrun : entries.foldlM markers.substituteEntry text tape = .ok current last) :
    ∃ insertions : List Insertion, Logged tape (insertions.flatMap Insertion.log) last ∧
      (∀ insertion ∈ insertions, insertion.Resolved markers) ∧
      (insertions.map Insertion.entry).Sublist entries ∧
      ∀ entry, entry ∈ insertions.map Insertion.entry ↔ markers.Uses entries text tape entry := by
  induction entries generalizing text tape with
  | nil =>
    cases hrun
    refine ⟨[], .nil last, by simp, .slnil, fun entry => ?_⟩
    simp [Uses]
  | cons first rest ih =>
    rw [List.foldlM_cons] at hrun
    obtain ⟨next, between, hfirst, hrest⟩ := Sampling.exists_of_bind hrun
    obtain ⟨insertions, hlogged, hresolved, hsublist, huses⟩ := ih hrest
    rcases substituteEntry_log hfirst with
      ⟨hoccurs, insertion, rfl, hinsertion, hhere⟩ | ⟨hoccurs, rfl⟩
    · refine ⟨insertion :: insertions, hhere.append hlogged,
        List.forall_mem_cons.mpr ⟨hinsertion, hresolved⟩, hsublist.cons_cons _, fun entry => ?_⟩
      rw [uses_cons_iff hfirst, List.map_cons, List.mem_cons, huses, and_iff_left hoccurs]
    · refine ⟨insertions, hlogged, hresolved, hsublist.cons _, fun entry => ?_⟩
      rw [uses_cons_iff hfirst, huses, hoccurs]
      simp

/-- Resolving the text fails here with this error, and these of its groups have been resolved: all of
them, unless the source leaves one of their calls without an answer. -/
structure FailsIn (markers : Markers) (text : String) (tape : Tape) (groups : List (Call × Nat))
    (error : SpinError) (stuck : Tape) : Prop where
  resolve_eq : markers.resolve text tape = .error error stuck
  stalled_iff : error = .stalled ↔
    tape.source.chooseAll? ((markers.calls text).map Call.count) = none
  groups_prefix : groups.map Prod.fst <+: markers.calls text
  groups_eq : error ≠ .stalled → groups.map Prod.fst = markers.calls text

/-- A run that fails to resolve a text logs the groups that have been resolved. -/
theorem exists_failsIn {error : SpinError} {stuck : Tape}
    (hresolve : markers.resolve text tape = .error error stuck) :
    ∃ groups, markers.FailsIn text tape groups error stuck ∧ Logged tape (reports groups) stuck := by
  obtain ⟨groups, hprefix, hall, hlogged⟩ := resolve_log_of_error hresolve
  have hstalled : error = .stalled ↔
      tape.source.chooseAll? ((markers.calls text).map Call.count) = none := by
    rw [← resolve_stalls_iff, hresolve]
    constructor
    · rintro rfl
      exact ⟨stuck, rfl⟩
    · rintro ⟨_, heq⟩
      cases heq
      rfl
  exact ⟨groups, ⟨hresolve, hstalled, hprefix, hall⟩, hlogged⟩

end Markers

namespace Spinner

variable {spinner : Spinner} {substitute : Bool} {tape last : Tape}

/-- An entry is used in a spin: its reference occurs in the text as it is in its turn. -/
def Uses (spinner : Spinner) (tape : Tape) (entry : String × String) : Prop :=
  ∃ text between, spinner.Turn tape entry text between ∧
    occursIn (spinner.markers.reference entry.1) text = true

/-- The groups are those of the template, and the insertions are for the entries among `earlier` that
are used, each once and in table order. -/
structure Accounts (spinner : Spinner) (tape : Tape) (earlier : Entries String)
    (groups : List (Call × Nat)) (insertions : List Insertion) : Prop where
  groups_eq : groups.map Prod.fst = spinner.markers.calls spinner.template
  resolved : ∀ insertion ∈ insertions, insertion.Resolved spinner.markers
  sublist : (insertions.map Insertion.entry).Sublist earlier
  used : ∀ entry ∈ earlier, entry ∈ insertions.map Insertion.entry ↔ spinner.Uses tape entry

/-- What the first entries use is what the spin uses of them. -/
theorem uses_iff {resolved : String} {first : Tape} {earlier later : Entries String}
    (hresolve : spinner.markers.resolve spinner.template tape = .ok resolved first)
    (hentries : spinner.placeholders.entries = earlier ++ later) {entry : String × String}
    (hmem : entry ∈ earlier) :
    spinner.markers.Uses earlier resolved first entry ↔ spinner.Uses tape entry := by
  constructor
  · rintro ⟨front, back, text, between, rfl, hfront, hoccurs⟩
    refine ⟨text, between, ⟨resolved, first, front, back ++ later, hresolve, ?_, hfront⟩, hoccurs⟩
    rw [hentries, List.append_assoc, List.cons_append]
  · rintro ⟨text, between, ⟨resolved', first', front, back, hresolve', hentries', hfront⟩, hoccurs⟩
    cases hresolve.symm.trans hresolve'
    -- The names are distinct, so the entry has just one place in the table.
    obtain ⟨front', back', rfl⟩ := List.append_of_mem hmem
    have hnodup : spinner.placeholders.entries.Nodup :=
      List.Nodup.of_map Prod.fst spinner.placeholders.nodup
    rw [hentries', List.nodup_middle, List.nodup_cons, List.mem_append, not_or] at hnodup
    have hsame := hentries'.symm.trans hentries
    rw [List.append_assoc, List.cons_append] at hsame
    obtain ⟨rfl, -, -⟩ := (List.append_cons_inj_of_notMem hnodup.1.1 hnodup.1.2).mp hsame
    exact ⟨front, back', text, between, rfl, hfront, hoccurs⟩

/-- When the template resolves and the first entries have had their turns, what has been logged
accounts for this. -/
theorem exists_accounts {resolved text : String} {first between : Tape}
    {earlier later : Entries String}
    (hresolve : spinner.markers.resolve spinner.template tape = .ok resolved first)
    (hentries : spinner.placeholders.entries = earlier ++ later)
    (hearlier : earlier.foldlM spinner.markers.substituteEntry resolved first = .ok text between) :
    ∃ groups insertions, spinner.Accounts tape earlier groups insertions ∧
      Logged tape (workLog groups insertions) between := by
  obtain ⟨groups, hcalls, hlogged⟩ := Markers.resolve_log_of_ok hresolve
  obtain ⟨insertions, hlogged', hresolved, hsublist, huses⟩ := Markers.foldlM_log hearlier
  refine ⟨groups, insertions, ⟨hcalls, hresolved, hsublist, fun entry hmem => ?_⟩,
    hlogged.append hlogged'⟩
  rw [huses, uses_iff hresolve hentries hmem]

/-- Taking a sample logs the template and the entries that are used. -/
theorem sample_log_of_ok {output : String}
    (hsample : spinner.sample substitute tape = .ok output last) :
    ∃ groups insertions,
      spinner.Accounts tape (if substitute then spinner.placeholders.entries else []) groups
          insertions ∧
        Logged tape (workLog groups insertions) last ∧ spinner.checkPairing = .ok () := by
  obtain ⟨resolved, first, hresolve, hrest⟩ := Sampling.exists_of_bind hsample
  have hsound := Markers.checkPairing_of_resolve hresolve
  cases substitute with
  | false =>
    have hnone : ([] : Entries String).foldlM spinner.markers.substituteEntry resolved first =
      .ok output last := hrest
    obtain ⟨groups, insertions, haccounts, hlogged⟩ :=
      exists_accounts hresolve (List.nil_append _).symm hnone
    exact ⟨groups, insertions, haccounts, hlogged, hsound⟩
  | true =>
    obtain ⟨groups, insertions, haccounts, hlogged⟩ :=
      exists_accounts hresolve (List.append_nil _).symm hrest
    exact ⟨groups, insertions, haccounts, hlogged, hsound⟩

/-- The stages of a spin are resolved as many times as there are closing markers in them. -/
theorem Accounts.length_choices {groups : List (Call × Nat)} {insertions : List Insertion}
    {earlier : Entries String} (haccounts : spinner.Accounts tape earlier groups insertions)
    (hsound : spinner.checkPairing = .ok ()) :
    (choices (workLog groups insertions)).length =
      (spinner.markers.tokens spinner.template).count (.mark .closing) +
        (insertions.map fun insertion =>
          (spinner.markers.tokens insertion.entry.2).count (.mark .closing)).sum := by
  have htemplate : groups.length =
      (spinner.markers.tokens spinner.template).count (.mark .closing) := by
    rw [← Markers.length_calls hsound, ← haccounts.groups_eq, List.length_map]
  have hvalues : (insertions.map fun insertion => insertion.groups.length) =
      insertions.map fun insertion =>
        (spinner.markers.tokens insertion.entry.2).count (.mark .closing) := by
    refine List.map_congr_left fun insertion hmem => ?_
    have hresolved := haccounts.resolved insertion hmem
    rw [← Markers.length_calls hresolved.sound, ← hresolved.groups_eq, List.length_map]
  rw [length_choices_workLog, htemplate, hvalues]

/-- A spin that succeeds logs the template, the entries that are used, and last the lengths, and no
stage of it has a fault. -/
theorem spin_log_of_ok {output : String} (hspin : spinner.spin substitute tape = .ok output last) :
    ∃ groups insertions,
      spinner.Accounts tape (if substitute then spinner.placeholders.entries else []) groups
          insertions ∧
        Logged tape (workLog groups insertions ++
          [.spun spinner.template.utf8ByteSize output.utf8ByteSize substitute]) last ∧
        spinner.checkPairing = .ok () := by
  rw [spin_eq_sample] at hspin
  obtain ⟨output, between, hsample, hreport⟩ := Sampling.exists_of_bind hspin
  cases hreport
  obtain ⟨groups, insertions, haccounts, hlogged, hsound⟩ := sample_log_of_ok hsample
  exact ⟨groups, insertions, haccounts, hlogged.append (.report rfl between), hsound⟩

/-- What a spin that fails has logged. It fails in the template, or in the value of an entry that is
used, behind the stages before. -/
inductive FailureLog (spinner : Spinner) (substitute : Bool) (tape : Tape) (error : SpinError)
    (stuck : Tape) : Option (String × String) → List Event → Prop
  | template {groups : List (Call × Nat)}
      (hfails : spinner.markers.FailsIn spinner.template tape groups error stuck) :
      FailureLog spinner substitute tape error stuck none (reports groups)
  | value {earlier later : Entries String} {entry : String × String} {text : String}
      {between : Tape} {groups made : List (Call × Nat)} {insertions : List Insertion}
      (hsubstitute : substitute = true)
      (hentries : spinner.placeholders.entries = earlier ++ entry :: later)
      (hturn : spinner.Turn tape entry text between)
      (hoccurs : occursIn (spinner.markers.reference entry.1) text = true)
      (haccounts : spinner.Accounts tape earlier groups insertions)
      (hlogged : Logged tape (workLog groups insertions) between)
      (hfails : spinner.markers.FailsIn entry.2 between made error stuck) :
      FailureLog spinner substitute tape error stuck (some entry)
        (workLog groups insertions ++ reports made)

/-- A spin that fails has logged the stages before and the groups of the text in which it fails. -/
theorem exists_failureLog {error : SpinError} {stuck : Tape}
    (hspin : spinner.spin substitute tape = .error error stuck) :
    ∃ failing log, spinner.FailureLog substitute tape error stuck failing log ∧
      Logged tape log stuck := by
  obtain ⟨text, between, hresolves, hfails⟩ := spin_eq_error_iff.mp hspin
  obtain ⟨made, hfails, hmade⟩ := Markers.exists_failsIn hfails
  cases hresolves with
  | template => exact ⟨none, _, .template hfails, hmade⟩
  | value hsubstitute hturn hoccurs =>
    obtain ⟨resolved, first, earlier, later, hresolve, hentries, hearlier⟩ := id hturn
    obtain ⟨groups, insertions, haccounts, hlogged⟩ := exists_accounts hresolve hentries hearlier
    exact ⟨some _, _, .value hsubstitute hentries hturn hoccurs haccounts hlogged hfails,
      hlogged.append hmade⟩

/-- Every spin has a log that is true to the source. -/
theorem exists_spin_log (spinner : Spinner) (substitute : Bool) (tape : Tape) :
    ∃ log, Logged tape log ((spinner.spin substitute).tapeAfter tape) := by
  cases hspin : spinner.spin substitute tape with
  | ok output last =>
    obtain ⟨groups, insertions, -, hlogged, -⟩ := spin_log_of_ok hspin
    exact ⟨_, Sampling.tapeAfter_of_ok hspin ▸ hlogged⟩
  | error error stuck =>
    obtain ⟨failing, log, -, hlogged⟩ := exists_failureLog hspin
    exact ⟨log, Sampling.tapeAfter_of_error hspin ▸ hlogged⟩

section

variable {error : SpinError} {stuck : Tape} {failing : Option (String × String)} {log : List Event}

/-- A spin that fails does not give the lengths. -/
theorem FailureLog.spun_not_mem
    (hfailure : spinner.FailureLog substitute tape error stuck failing log)
    (templateLength outputLength : Nat) (substituted : Bool) :
    .spun templateLength outputLength substituted ∉ log := by
  intro hmem
  cases hfailure with
  | template =>
    obtain ⟨call, index, heq⟩ := eq_report_of_mem_reports hmem
    cases heq
  | value =>
    rcases report_or_substituting_of_mem hmem with ⟨call, index, heq⟩ | ⟨insertion, -, heq⟩
    · cases heq
    · cases heq

/-- The name of the entry whose value does not resolve is not logged. -/
theorem FailureLog.substituting_not_mem {entry : String × String}
    (hfailure : spinner.FailureLog substitute tape error stuck (some entry) log) :
    .substituting entry.1 ∉ log := by
  intro hmem
  cases hfailure with
  | value hsubstitute hentries hturn hoccurs haccounts hlogged hfails =>
    have hnodup := spinner.placeholders.nodup
    rw [hentries, Entries.names, List.map_append, List.map_cons, List.nodup_middle, List.nodup_cons,
      List.mem_append, not_or] at hnodup
    rcases report_or_substituting_of_mem hmem with ⟨call, index, heq⟩ | ⟨insertion, hinsertion, heq⟩
    · cases heq
    · have hearlier := haccounts.sublist.subset (List.mem_map_of_mem hinsertion)
      rw [Event.substituting.inj heq] at hnodup
      exact hnodup.1.1 (List.mem_map_of_mem hearlier)

end

/-- A spin accounts for all its work, and the choices made on the source are those that its log tells of.

A success logs the groups of the template, then in table order those of each entry used and its name. A
failure logs what comes before, and it stalls only in a text with a call that is not answered. -/
theorem spin_accounts_for_work (spinner : Spinner) (substitute : Bool) (tape : Tape) :
    match spinner.spin substitute tape with
    | .ok output last => ∃ groups insertions,
        spinner.Accounts tape (if substitute then spinner.placeholders.entries else []) groups
          insertions ∧
        let log := workLog groups insertions ++
          [.spun spinner.template.utf8ByteSize output.utf8ByteSize substitute]
        Logged tape log last ∧
          (choices log).length = (spinner.markers.tokens spinner.template).count (.mark .closing) +
            (insertions.map fun insertion =>
              (spinner.markers.tokens insertion.entry.2).count (.mark .closing)).sum
    | .error error stuck => (tape.source.Answering → error ≠ .stalled) ∧ ∃ failing log,
        spinner.FailureLog substitute tape error stuck failing log ∧ Logged tape log stuck ∧
        (∀ templateLength outputLength substituted,
          .spun templateLength outputLength substituted ∉ log) ∧
        ∀ entry, failing = some entry → .substituting entry.1 ∉ log := by
  cases hspin : spinner.spin substitute tape with
  | ok output last =>
    obtain ⟨groups, insertions, haccounts, hlogged, hsound⟩ := spin_log_of_ok hspin
    refine ⟨groups, insertions, haccounts, hlogged, ?_⟩
    rw [choices_append, List.length_append, haccounts.length_choices hsound]
    rfl
  | error error stuck =>
    obtain ⟨failing, log, hfailure, hlogged⟩ := exists_failureLog hspin
    refine ⟨?_, failing, log, hfailure, hlogged, hfailure.spun_not_mem, ?_⟩
    · rintro hanswering rfl
      exact answered_spin hanswering stuck hspin
    · rintro entry rfl
      exact hfailure.substituting_not_mem

/-- A spin that puts in the value of one of two entries, and one that fails in the value of the
second entry: behind a group that is resolved in this value, and before its name. -/
theorem spin_accounts_for_work_entry :
    let sound : Spinner :=
      { template := "\x7b~a~|z\x7d"
        placeholders := .ofPairs [("b", "\x7b"), ("a", "\x7bp|q|r\x7d!")] }
    let faulty : Spinner :=
      { template := "\x7b~a~|z\x7d~b~"
        placeholders := .ofPairs [("a", "x"), ("b", "\x7bp|q\x7d\x7by")] }
    let tape : Tape := { source := .ofList [] }
    (∃ groups insertions last, sound.spin true tape = .ok "p!" last ∧
      sound.Accounts tape sound.placeholders.entries groups insertions ∧
      workLog groups insertions ++ [.spun 7 2 true] =
        [.resolvedGroup 0 2 0, .resolvedGroup 0 3 0, .substituting "a", .spun 7 2 true]) ∧
    ∃ log stuck,
      faulty.FailureLog true tape (.malformed ⟨.opening, 5⟩) stuck
        (some ("b", "\x7bp|q\x7d\x7by")) log ∧
      log = [.resolvedGroup 0 2 0, .substituting "a", .resolvedGroup 0 2 0] := by
  intro sound faulty tape
  have hlog {log : List Event} {last : Tape} (hlogged : Logged tape log last) :
      log = last.events.reverse := by
    rw [hlogged.events_eq, List.append_nil, List.reverse_reverse]
  constructor
  · have hspin : ∃ last, sound.spin true tape = .ok "p!" last ∧ last.events.reverse =
        [.resolvedGroup 0 2 0, .resolvedGroup 0 3 0, .substituting "a", .spun 7 2 true] :=
      by decide +kernel
    obtain ⟨last, hspin, hevents⟩ := hspin
    have haccounts := sound.spin_accounts_for_work true tape
    rw [hspin] at haccounts
    obtain ⟨groups, insertions, haccounts, hlogged, -⟩ := haccounts
    exact ⟨groups, insertions, last, hspin, haccounts, (hlog hlogged).trans hevents⟩
  · have hspin : ∃ stuck, faulty.spin true tape = .error (.malformed ⟨.opening, 5⟩) stuck ∧
        stuck.events.reverse = [.resolvedGroup 0 2 0, .substituting "a", .resolvedGroup 0 2 0] :=
      by decide +kernel
    obtain ⟨stuck, hspin, hevents⟩ := hspin
    have hfails := faulty.spin_accounts_for_work true tape
    rw [hspin] at hfails
    obtain ⟨-, failing, log, hfailure, hlogged, -⟩ := hfails
    have hfault {text : String} {between : Tape} {made : List (Call × Nat)}
        (hfails : faulty.markers.FailsIn text between made (.malformed ⟨.opening, 5⟩) stuck) :
        faulty.markers.checkPairing text ≠ .ok () := by
      obtain ⟨fault, -, hfault⟩ := Markers.exists_fault_of_resolve hfails.resolve_eq (by simp)
      simp [hfault]
    refine ⟨log, stuck, ?_, (hlog hlogged).trans hevents⟩
    have hentries : faulty.placeholders.entries =
        [("a", "x"), ("b", "\x7bp|q\x7d\x7by")] := by decide +kernel
    cases id hfailure with
    | template hfails => exact absurd (by decide +kernel) (hfault hfails)
    | @value earlier later entry _ _ _ _ _ _ _ hturn _ _ _ hfails =>
      have hmem := hturn.mem_entries
      rw [hentries, List.mem_cons, List.mem_singleton] at hmem
      rcases hmem with rfl | rfl
      · exact absurd (by decide +kernel) (hfault hfails)
      · exact hfailure

end Spinner

end Spintax
