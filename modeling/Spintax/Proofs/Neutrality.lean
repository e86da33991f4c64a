import Spintax.Proofs.Failing
import Spintax.Proofs.InStep
import Spintax.Proofs.Renaming

/-!
# No character is special

Only the configured markers are special: when the characters of a spinner are renamed, it does the
same with the renamed characters. Resolving a text and resolving the renamed text run in step,
because the lexemes of the two correspond and the groups that are open have the same numbers of
alternatives. The same holds for substituting, because a renamed reference occurs where the
reference does. So a spin of the renamed spinner makes the same draws and ends alike, and the checks
answer alike.
-/

namespace Spintax

/-- An open group and the same group of the renamed text. -/
structure PendingGroup.Renamed (f : Renaming) (text : String) (group other : PendingGroup) :
    Prop where
  start : SameCharacter f text group.start other.start
  finished : other.finished = group.finished.map (String.map f)
  current : other.current = group.current.map f

/-- A draft of a text and the same draft of the renamed text. -/
structure Draft.Renamed (f : Renaming) (text : String) (draft other : Draft) : Prop where
  groups : List.Forall₂ (PendingGroup.Renamed f text) draft.groups other.groups
  output : other.output = draft.output.map f

/-- Errors of the same kind: faults of a text and of the renamed text that correspond, or a source
that gave no answer. -/
inductive SpinError.Renamed (f : Renaming) (text : String) : SpinError → SpinError → Prop where
  | malformed {fault other : Malformed} (hfault : fault.Renamed f text other) :
      SpinError.Renamed f text (.malformed fault) (.malformed other)
  | stalled : SpinError.Renamed f text .stalled .stalled

section

variable {f : Renaming} {text : String} {draft other : Draft}

/-- A renamed group has the renamed alternatives. -/
theorem PendingGroup.Renamed.alternatives {group other : PendingGroup}
    (hgroup : group.Renamed f text other) :
    other.alternatives = group.alternatives.map (String.map f) := by
  rw [PendingGroup.alternatives, PendingGroup.alternatives, hgroup.finished, hgroup.current,
    ← List.map_cons, ← List.map_reverse]

/-- The alternative that an index stands for, of the renamed alternatives. -/
theorem getD_map (f : Renaming) (alternatives : List String) (index : Nat) :
    (alternatives.map (String.map f)).getD index "" = (alternatives.getD index "").map f := by
  rw [List.getD_eq_getElem?_getD, List.getD_eq_getElem?_getD, List.getElem?_map]
  cases alternatives[index]? with
  | none => exact f.map_empty.symm
  | some alternative => rfl

namespace Draft.Renamed

/-- Writing a renamed chunk to a renamed draft renames the draft. -/
theorem write (hdraft : draft.Renamed f text other) (chunk : String) :
    (draft.write chunk).Renamed f text (other.write (chunk.map f)) := by
  obtain ⟨groups, output⟩ := draft
  obtain ⟨groups', output'⟩ := other
  obtain ⟨hgroups, houtput⟩ := hdraft
  cases hgroups with
  | nil => exact ⟨.nil, by simp only [Draft.write, f.map_append, ← houtput]⟩
  | cons hgroup houter =>
    refine ⟨.cons ⟨hgroup.start, hgroup.finished, ?_⟩ houter, houtput⟩
    rw [f.map_append, ← hgroup.current]

/-- Beginning a group at the same character of a renamed draft renames the draft. -/
theorem beginGroup (hdraft : draft.Renamed f text other) {start start' : Nat}
    (hstart : SameCharacter f text start start') :
    (draft.beginGroup start).Renamed f text (other.beginGroup start') :=
  ⟨.cons ⟨hstart, rfl, f.map_empty.symm⟩ hdraft.groups, hdraft.output⟩

/-- Separating a renamed draft by the renamed separator renames the draft. -/
theorem separate (hdraft : draft.Renamed f text other) (separator : String) :
    (draft.separate separator).Renamed f text (other.separate (separator.map f)) := by
  obtain ⟨groups, output⟩ := draft
  obtain ⟨groups', output'⟩ := other
  obtain ⟨hgroups, houtput⟩ := hdraft
  cases hgroups with
  | nil => exact ⟨.nil, by simp only [Draft.separate, f.map_append, ← houtput]⟩
  | cons hgroup houter =>
    refine ⟨.cons ⟨hgroup.start, ?_, f.map_empty.symm⟩ houter, houtput⟩
    rw [List.map_cons, ← hgroup.current, ← hgroup.finished]

/-- Closing the innermost group chooses among as many alternatives. -/
theorem endGroup (hdraft : draft.Renamed f text other) {position position' : Nat}
    (hposition : SameCharacter f text position position') :
    Sampling.InStep (Draft.Renamed f text) (SpinError.Renamed f text) (draft.endGroup position)
      (other.endGroup position') := by
  obtain ⟨groups, output⟩ := draft
  obtain ⟨groups', output'⟩ := other
  obtain ⟨hgroups, houtput⟩ := hdraft
  cases hgroups with
  | nil => exact .throw (.malformed ⟨rfl, hposition⟩)
  | @cons group group' outer outer' hgroup houter =>
    have hlength : group'.alternatives.length = group.alternatives.length := by
      rw [hgroup.alternatives, List.length_map]
    simp only [Draft.endGroup, hlength]
    apply Sampling.InStep.bind (.choose .stalled _)
    rintro index _ rfl
    apply Sampling.InStep.bind (.report _ _)
    intro _ _ _
    apply Sampling.InStep.pure
    have hrest : Draft.Renamed f text ⟨outer, output⟩ ⟨outer', output'⟩ := ⟨houter, houtput⟩
    rw [hgroup.alternatives, getD_map]
    exact hrest.write _

/-- Taking in lexemes that correspond. -/
theorem step (hdraft : draft.Renamed f text other) (separator : String) {lexeme lexeme' : Lexeme}
    (hlexeme : lexeme.Renamed f text lexeme') :
    Sampling.InStep (Draft.Renamed f text) (SpinError.Renamed f text) (draft.step separator lexeme)
      (other.step (separator.map f) lexeme') := by
  obtain ⟨token, start, stop⟩ := lexeme
  obtain ⟨_, start', stop'⟩ := lexeme'
  obtain ⟨rfl, hstart⟩ := hlexeme
  rcases token with chunk | kind
  · exact .pure (hdraft.write chunk)
  · cases kind with
    | opening => exact .pure (hdraft.beginGroup hstart)
    | separator => exact .pure (hdraft.separate separator)
    | closing => exact hdraft.endGroup hstart

/-- Finishing drafts that correspond. -/
theorem finish (hdraft : draft.Renamed f text other) :
    Sampling.InStep (fun output output' => output' = output.map f) (SpinError.Renamed f text)
      draft.finish other.finish := by
  have hlast := rel_getLast? hdraft.groups
  rw [Draft.finish, Draft.finish]
  generalize draft.groups.getLast? = last at hlast ⊢
  generalize other.groups.getLast? = last' at hlast ⊢
  cases hlast with
  | none => exact .pure hdraft.output
  | some hgroup => exact .throw (.malformed ⟨rfl, hgroup.start⟩)

end Draft.Renamed

end

namespace Markers

variable (markers : Markers) (f : Renaming)

/-- Resolving a text and resolving the renamed text run in step. -/
theorem resolve_inStep (text : String) :
    Sampling.InStep (fun output other => other = output.map f) (SpinError.Renamed f text)
      (markers.resolve text) ((markers.rename f).resolve (text.map f)) := by
  have hbegin : Draft.Renamed f text {} {} := ⟨.nil, f.map_empty.symm⟩
  rw [resolve, resolve, get_rename]
  apply Sampling.InStep.bind
  · exact .foldlM (markers.forall₂_lexemes text)
      (fun draft other lexeme lexeme' hdraft hlexeme => hdraft.step _ hlexeme) hbegin
  · exact fun draft other hdraft => hdraft.finish

/-- Applying an entry and applying the renamed entry run in step. -/
theorem substituteEntry_inStep (text : String) (entry : String × String) :
    Sampling.InStep (fun output other => other = output.map f) (SpinError.Renamed f entry.2)
      (markers.substituteEntry text entry)
      ((markers.rename f).substituteEntry (text.map f) (entry.1.map f, entry.2.map f)) := by
  rw [substituteEntry, substituteEntry]
  simp only [reference_rename, f.occursIn_map]
  split
  · apply Sampling.InStep.bind (markers.resolve_inStep f entry.2)
    rintro sample _ rfl
    apply Sampling.InStep.bind (.report _ _)
    intro _ _ _
    exact .pure (f.replaceAll_map _ _ _)
  · exact .pure rfl

/-- Applying entries and applying the renamed entries run in step. -/
theorem foldlM_substituteEntry_inStep (text : String) (entries : Entries String) :
    Sampling.InStep (fun output other => other = output.map f) (fun _ _ => True)
      (entries.foldlM markers.substituteEntry text)
      ((entries.map fun entry => (entry.1.map f, entry.2.map f)).foldlM
        (markers.rename f).substituteEntry (text.map f)) := by
  have hentries : List.Forall₂ (fun entry other => other = (entry.1.map f, entry.2.map f)) entries
      (entries.map fun entry => (entry.1.map f, entry.2.map f)) := by
    rw [List.forall₂_map_right_iff, List.forall₂_same]
    exact fun _ _ => rfl
  refine Sampling.InStep.foldlM hentries ?_ rfl
  rintro value _ entry _ rfl rfl
  exact (markers.substituteEntry_inStep f value entry).mono fun _ _ _ => trivial

end Markers

namespace Spinner

variable {spinner : Spinner} {substitute : Bool} {tape between : Tape} {f : Renaming}

/-- A sample of a spinner and a sample of the renamed spinner run in step. -/
theorem sample_inStep (spinner : Spinner) (substitute : Bool) (f : Renaming) :
    Sampling.InStep (fun output other => other = output.map f) (fun _ _ => True)
      (spinner.sample substitute) ((spinner.rename f).sample substitute) := by
  rw [sample, sample]
  apply Sampling.InStep.bind
  · exact (spinner.markers.resolve_inStep f spinner.template).mono fun _ _ _ => trivial
  · rintro resolved _ rfl
    cases substitute with
    | false => exact .pure rfl
    | true => exact spinner.markers.foldlM_substituteEntry_inStep f resolved _

/-- Spinning and spinning the renamed spinner run in step. -/
theorem spin_inStep (spinner : Spinner) (substitute : Bool) (f : Renaming) :
    Sampling.InStep (fun output other => other = output.map f) (fun _ _ => True)
      (spinner.spin substitute) ((spinner.rename f).spin substitute) := by
  rw [spin_eq_sample, spin_eq_sample]
  apply Sampling.InStep.bind (spinner.sample_inStep substitute f)
  rintro output _ rfl
  apply Sampling.InStep.bind (.report _ _)
  intro _ _ _
  exact .pure rfl

/-- The turn of an entry is the turn of the renamed entry, with the same source. -/
theorem Turn.rename {entry : String × String} {text : String}
    (hturn : spinner.Turn tape entry text between) (f : Renaming) :
    ∃ between', (spinner.rename f).Turn tape (entry.1.map f, entry.2.map f) (text.map f) between' ∧
      between.source = between'.source := by
  obtain ⟨resolved, first, earlier, later, hresolve, hentries, hearlier⟩ := hturn
  obtain ⟨_, first', hresolve', rfl, hfirst⟩ :=
    (spinner.markers.resolve_inStep f spinner.template).exists_ok rfl hresolve
  obtain ⟨_, between', hearlier', rfl, hbetween⟩ :=
    (spinner.markers.foldlM_substituteEntry_inStep f resolved earlier).exists_ok hfirst hearlier
  refine ⟨between', ⟨_, first', _, later.map fun entry => (entry.1.map f, entry.2.map f), hresolve',
    ?_, hearlier'⟩, hbetween⟩
  change spinner.placeholders.entries.map _ = _
  rw [hentries, List.map_append, List.map_cons]

/-- The renamed spinner comes to resolve the renamed texts, with the same sources. -/
theorem Resolves.rename {text : String} (hresolves : spinner.Resolves substitute tape text between)
    (f : Renaming) :
    ∃ between', (spinner.rename f).Resolves substitute tape (text.map f) between' ∧
      between.source = between'.source := by
  rcases hresolves with _ | ⟨hsubstitute, hturn, hoccurs⟩
  · exact ⟨tape, .template, rfl⟩
  · obtain ⟨between', hturn', hsource⟩ := hturn.rename f
    refine ⟨between', .value hsubstitute hturn' ?_, hsource⟩
    change occursIn ((spinner.markers.rename f).reference _) _ = true
    rwa [Markers.reference_rename, f.occursIn_map]

/-- When spinning fails in a text, spinning the renamed spinner fails in the renamed text, with the
same draws. -/
theorem exists_spin_rename_eq_error {error : SpinError} {last : Tape}
    (hfails : spinner.spin substitute tape = .error error last) (f : Renaming) :
    ∃ text between other behind, spinner.Resolves substitute tape text between ∧
      spinner.markers.resolve text between = .error error last ∧
      (spinner.rename f).spin substitute tape = .error other behind ∧
      last.source = behind.source ∧ error.Renamed f text other := by
  obtain ⟨text, between, hresolves, hresolve⟩ := spin_eq_error_iff.mp hfails
  obtain ⟨between', hresolves', hsource⟩ := hresolves.rename f
  obtain ⟨other, behind, hresolve', herror, hlast⟩ :=
    (spinner.markers.resolve_inStep f text).exists_error hsource hresolve
  exact ⟨text, between, other, behind, hresolves, hresolve,
    spin_eq_error_iff.mpr ⟨_, between', hresolves', hresolve'⟩, hlast, herror⟩

/-- The audit of a renamed spinner lists the renamed names. -/
theorem audit_rename (spinner : Spinner) (f : Renaming) :
    (spinner.rename f).audit = spinner.audit.map (String.map f) :=
  spinner.markers.audit_rename f spinner.placeholders spinner.template

/-- A renamed spinner has the same balance. -/
theorem balance_rename (spinner : Spinner) (f : Renaming) :
    (spinner.rename f).balance = spinner.balance :=
  spinner.markers.balance_rename f spinner.template

/-- Validation gives the same answer. -/
theorem isValid_rename (spinner : Spinner) (f : Renaming) (checkPlaceholders : Bool) :
    (spinner.rename f).isValid checkPlaceholders = spinner.isValid checkPlaceholders := by
  rw [Bool.eq_iff_iff, isValid_iff, isValid_iff, balance_rename, audit_rename, List.map_eq_nil_iff]

/-- No character is special but those of the markers.

A renamed spinner makes the same draws and has the renamed outputs, errors at the same characters, and the
corresponding answers to all questions. -/
theorem answers_rename (spinner : Spinner) (f : Renaming) :
    (∀ substitute tape, match spinner.spin substitute tape with
      | .ok output last => ∃ behind,
        (spinner.rename f).spin substitute tape = .ok (output.map f) behind ∧
          last.source = behind.source
      | .error error last => ∃ text between other behind,
        spinner.Resolves substitute tape text between ∧
          spinner.markers.resolve text between = .error error last ∧
          (spinner.rename f).spin substitute tape = .error other behind ∧
          last.source = behind.source ∧ error.Renamed f text other) ∧
    (match spinner.checkPairing with
      | .ok _ => (spinner.rename f).checkPairing = .ok ()
      | .error fault => ∃ other, (spinner.rename f).checkPairing = .error other ∧
        fault.Renamed f spinner.template other) ∧
    (spinner.rename f).balance = spinner.balance ∧
    (∀ checkPlaceholders,
      (spinner.rename f).isValid checkPlaceholders = spinner.isValid checkPlaceholders) ∧
    (spinner.rename f).audit = spinner.audit.map (String.map f) := by
  refine ⟨fun substitute tape => ?_, spinner.markers.checkPairing_rename f spinner.template,
    spinner.balance_rename f, spinner.isValid_rename f, spinner.audit_rename f⟩
  cases hspin : spinner.spin substitute tape with
  | ok output last =>
    obtain ⟨_, behind, hother, rfl, hlast⟩ :=
      (spinner.spin_inStep substitute f).exists_ok rfl hspin
    exact ⟨behind, hother, hlast⟩
  | error error last => exact exists_spin_rename_eq_error hspin f

end Spinner

end Spintax
