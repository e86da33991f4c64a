import Spintax.Proofs.Choices
import Spintax.Proofs.Tiling
import Spintax.Resolution

/-!
# The calls of a text

How many alternatives a group has does not depend on what is chosen in it. So the calls that resolving
a text makes can be listed beforehand, and resolving it amounts to making these calls in turn and then
answering from the indices drawn. The answer is a fault exactly when the structure check finds one,
and it is the same fault.

The list has one call for each closing marker, in their order, up to the first closing marker without
an opening marker before it. No call is for an empty range.
-/

namespace Spintax

/-- The calls for the closing markers among the lexemes, in order. For each group that is open,
innermost first, `pending` holds where it began and how many alternatives it has so far. -/
def callsFrom : List (Nat × Nat) → List Lexeme → List Call
  | _, [] => []
  | pending, lexeme :: rest =>
    match lexeme.token, pending with
    | .text _, _ => callsFrom pending rest
    | .mark .opening, _ => callsFrom ((lexeme.start, 1) :: pending) rest
    | .mark .separator, [] => callsFrom [] rest
    | .mark .separator, (start, count) :: outer => callsFrom ((start, count + 1) :: outer) rest
    | .mark .closing, [] => []
    | .mark .closing, (start, count) :: outer =>
      ⟨start, lexeme.start, count⟩ :: callsFrom outer rest

section

variable (pending : List (Nat × Nat)) (start stop : Nat) (rest : List Lexeme)

/-- A chunk of text makes no call. -/
theorem callsFrom_text (chunk : String) :
    callsFrom pending (⟨.text chunk, start, stop⟩ :: rest) = callsFrom pending rest := rfl

/-- An opening marker begins a group of one alternative. -/
theorem callsFrom_opening :
    callsFrom pending (⟨.mark .opening, start, stop⟩ :: rest) =
      callsFrom ((start, 1) :: pending) rest := rfl

/-- A separator inside a group adds an alternative to it. -/
theorem callsFrom_separator (began count : Nat) :
    callsFrom ((began, count) :: pending) (⟨.mark .separator, start, stop⟩ :: rest) =
      callsFrom ((began, count + 1) :: pending) rest := rfl

/-- A closing marker makes the call of the innermost group. -/
theorem callsFrom_closing (began count : Nat) :
    callsFrom ((began, count) :: pending) (⟨.mark .closing, start, stop⟩ :: rest) =
      ⟨began, start, count⟩ :: callsFrom pending rest := rfl

end

/-- The places of the closing markers among the lexemes. -/
def closingStarts (lexemes : List Lexeme) : List Nat :=
  (lexemes.filter (·.token = .mark .closing)).map Lexeme.start

namespace Draft

/-- Where each open group began and how many alternatives it has so far, innermost first. -/
def pending (draft : Draft) : List (Nat × Nat) :=
  draft.groups.map fun group => (group.start, group.alternatives.length)

/-- What a draft becomes when the lexemes are taken in and the indices are drawn in turn. -/
def outcome (separator : String) : Draft → List Lexeme → List Nat → Except Malformed String
  | draft, [], _ =>
    match draft.groups.getLast? with
    | some group => .error ⟨.opening, group.start⟩
    | none => .ok draft.output
  | draft, lexeme :: rest, indices =>
    match lexeme.token, draft.groups with
    | .text chunk, _ => outcome separator (draft.write chunk) rest indices
    | .mark .opening, _ => outcome separator (draft.beginGroup lexeme.start) rest indices
    | .mark .separator, _ => outcome separator (draft.separate separator) rest indices
    | .mark .closing, [] => .error ⟨.closing, lexeme.start⟩
    | .mark .closing, group :: outer =>
      let chosen := group.alternatives.getD (indices.headD 0) ""
      outcome separator (write ⟨outer, draft.output⟩ chosen) rest indices.tail

section

variable (separator : String) (draft : Draft) (start stop : Nat) (rest : List Lexeme)
  (indices : List Nat)

/-- A chunk of text is written. -/
theorem outcome_text (chunk : String) :
    draft.outcome separator (⟨.text chunk, start, stop⟩ :: rest) indices =
      (draft.write chunk).outcome separator rest indices := rfl

/-- An opening marker begins a group. -/
theorem outcome_opening :
    draft.outcome separator (⟨.mark .opening, start, stop⟩ :: rest) indices =
      (draft.beginGroup start).outcome separator rest indices := rfl

/-- A separator separates. -/
theorem outcome_separator :
    draft.outcome separator (⟨.mark .separator, start, stop⟩ :: rest) indices =
      (draft.separate separator).outcome separator rest indices := rfl

/-- A closing marker writes the alternative that the next index chooses. -/
theorem outcome_closing (group : PendingGroup) (outer : List PendingGroup) (output : String) :
    outcome separator ⟨group :: outer, output⟩ (⟨.mark .closing, start, stop⟩ :: rest) indices =
      outcome separator (write ⟨outer, output⟩ (group.alternatives.getD (indices.headD 0) "")) rest
        indices.tail := rfl

end

/-- The innermost group is the first of those pending. -/
theorem pending_cons (group : PendingGroup) (outer : List PendingGroup) (output : String) :
    pending ⟨group :: outer, output⟩ =
      (group.start, group.alternatives.length) :: pending ⟨outer, output⟩ := rfl

/-- Writing the empty text changes nothing. -/
@[simp] theorem write_empty (draft : Draft) : draft.write "" = draft := by
  obtain ⟨_ | ⟨group, outer⟩, output⟩ := draft <;> simp [write]

/-- Writing two texts is writing them as one. -/
@[simp] theorem write_write (draft : Draft) (first second : String) :
    (draft.write first).write second = draft.write (first ++ second) := by
  obtain ⟨_ | ⟨group, outer⟩, output⟩ := draft <;> simp [write, String.append_assoc]

/-- Writing text leaves the open groups with the alternatives they have. -/
@[simp] theorem pending_write (draft : Draft) (text : String) :
    (draft.write text).pending = draft.pending := by
  obtain ⟨_ | ⟨group, outer⟩, output⟩ := draft <;> simp [pending, write, PendingGroup.alternatives]

/-- A group that is opened has one alternative. -/
@[simp] theorem pending_beginGroup (draft : Draft) (start : Nat) :
    (draft.beginGroup start).pending = (start, 1) :: draft.pending := by
  simp [pending, beginGroup, PendingGroup.alternatives]

/-- A separator begins one more alternative of the innermost group, if there is one. -/
theorem callsFrom_separate (separator : String) (draft : Draft) (start stop : Nat)
    (rest : List Lexeme) :
    callsFrom draft.pending (⟨.mark .separator, start, stop⟩ :: rest) =
      callsFrom (draft.separate separator).pending rest := by
  obtain ⟨_ | ⟨group, outer⟩, output⟩ := draft
  · rfl
  · simp [pending, separate, PendingGroup.alternatives, callsFrom]

end Draft

namespace Sampling

/-- A fault ends the computation, anything else is its result. -/
def settle {α : Type} : Except Malformed α → Sampling α
  | .ok value => pure value
  | .error fault => throw (.malformed fault)

end Sampling

namespace Draft

/-- Closing a group is making a call for it. -/
theorem endGroup_bind {β : Type} (group : PendingGroup) (outer : List PendingGroup) (output : String)
    (position : Nat) (next : Draft → Sampling β) :
    (endGroup ⟨group :: outer, output⟩ position >>= next) = (do
      let index ← Sampling.make ⟨group.start, position, group.alternatives.length⟩
      next (write ⟨outer, output⟩ (group.alternatives.getD index ""))) := by
  simp only [endGroup, Sampling.make, bind_assoc, pure_bind]
  rfl

/-- Taking in lexemes and finishing is making their calls and then settling on the outcome. -/
theorem foldlM_step_finish (separator : String) (draft : Draft) (lexemes : List Lexeme) :
    (do let last ← lexemes.foldlM (step separator) draft; last.finish) = (do
      let indices ← Sampling.makeAll (callsFrom draft.pending lexemes)
      Sampling.settle (draft.outcome separator lexemes indices)) := by
  induction lexemes generalizing draft with
  | nil =>
    simp only [List.foldlM_nil, pure_bind, callsFrom, Sampling.makeAll, List.mapM_nil, outcome,
      finish]
    cases draft.groups.getLast? <;> rfl
  | cons lexeme rest ih =>
    obtain ⟨chunk | mark, start, stop⟩ := lexeme
    · simp only [List.foldlM_cons, step, pure_bind, ih, pending_write]
      rfl
    · cases mark with
      | opening =>
        simp only [List.foldlM_cons, step, pure_bind, ih, pending_beginGroup]
        rfl
      | separator =>
        simp only [List.foldlM_cons, step, pure_bind, ih, callsFrom_separate separator]
        rfl
      | closing =>
        obtain ⟨_ | ⟨group, outer⟩, output⟩ := draft
        · rfl
        · simp only [List.foldlM_cons, step, bind_assoc, endGroup_bind, ih, pending_write,
            pending_cons, callsFrom_closing, Sampling.makeAll_cons, pure_bind, outcome_closing]
          rfl

/-- The structure check finds the fault of the outcome, whatever is drawn. -/
theorem checkLexemes_eq_outcome (separator : String) (draft : Draft) (lexemes : List Lexeme)
    (indices : List Nat) :
    checkLexemes (draft.groups.map PendingGroup.start) lexemes =
      (draft.outcome separator lexemes indices).map fun _ => () := by
  induction lexemes generalizing draft indices with
  | nil =>
    rw [checkLexemes, outcome, List.getLast?_map]
    cases draft.groups.getLast? <;> rfl
  | cons lexeme rest ih =>
    obtain ⟨chunk | mark, start, stop⟩ := lexeme
    · rw [outcome, ← ih]
      obtain ⟨_ | ⟨group, outer⟩, output⟩ := draft <;> rfl
    · cases mark with
      | opening =>
        rw [outcome, ← ih]
        rfl
      | separator =>
        rw [outcome, ← ih]
        obtain ⟨_ | ⟨group, outer⟩, output⟩ := draft <;> rfl
      | closing =>
        obtain ⟨_ | ⟨group, outer⟩, output⟩ := draft
        · rfl
        · rw [outcome, ← ih]
          obtain _ | ⟨enclosing, others⟩ := outer <;> rfl

end Draft

/-- No call is for an empty range, if no open group is without alternatives. -/
theorem count_pos_of_mem_callsFrom {pending : List (Nat × Nat)} {lexemes : List Lexeme}
    (hpending : ∀ group ∈ pending, 0 < group.2) :
    ∀ call ∈ callsFrom pending lexemes, 0 < call.count := by
  induction lexemes generalizing pending with
  | nil => simp [callsFrom]
  | cons lexeme rest ih =>
    obtain ⟨chunk | mark, start, stop⟩ := lexeme
    · exact ih hpending
    · cases mark with
      | opening => exact ih (List.forall_mem_cons.mpr ⟨Nat.one_pos, hpending⟩)
      | separator =>
        obtain _ | ⟨⟨began, count⟩, outer⟩ := pending
        · exact ih hpending
        · rw [List.forall_mem_cons] at hpending
          exact ih (List.forall_mem_cons.mpr ⟨Nat.succ_pos _, hpending.2⟩)
      | closing =>
        obtain _ | ⟨⟨began, count⟩, outer⟩ := pending
        · simp [callsFrom]
        · rw [List.forall_mem_cons] at hpending
          exact List.forall_mem_cons.mpr ⟨hpending.1, ih hpending.2⟩

/-- The calls are for the closing markers from the first one on. None is left out unless the check
blames a closing marker, and then that marker is the next. -/
theorem closingStarts_eq_append (pending : List (Nat × Nat)) (lexemes : List Lexeme) :
    ∃ left, closingStarts lexemes = (callsFrom pending lexemes).map Call.stop ++ left ∧
      match checkLexemes (pending.map Prod.fst) lexemes with
      | .error ⟨.closing, position⟩ => left.head? = some position
      | _ => left = [] := by
  induction lexemes generalizing pending with
  | nil =>
    refine ⟨[], rfl, ?_⟩
    rw [checkLexemes]
    cases (pending.map Prod.fst).getLast? <;> rfl
  | cons lexeme rest ih =>
    obtain ⟨chunk | mark, start, stop⟩ := lexeme
    · exact ih pending
    · cases mark with
      | opening => exact ih ((start, 1) :: pending)
      | separator =>
        obtain _ | ⟨⟨began, count⟩, outer⟩ := pending
        · exact ih []
        · exact ih ((began, count + 1) :: outer)
      | closing =>
        obtain _ | ⟨⟨began, count⟩, outer⟩ := pending
        · exact ⟨start :: closingStarts rest, rfl, rfl⟩
        · obtain ⟨left, heq, hleft⟩ := ih outer
          refine ⟨left, ?_, hleft⟩
          change start :: closingStarts rest = start :: ((callsFrom outer rest).map Call.stop ++ left)
          rw [heq]

namespace Markers

variable (markers : Markers) (text : String)

/-- The calls that resolving a text makes when all of them are answered. -/
def calls : List Call :=
  callsFrom [] (markers.lexemes text)

/-- What resolving a text comes to when the given indices are drawn. -/
def outcome (indices : List Nat) : Except Malformed String :=
  Draft.outcome (markers.get .separator) {} (markers.lexemes text) indices

/-- The places of the closing markers of a text. -/
def closingStarts : List Nat :=
  Spintax.closingStarts (markers.lexemes text)

/-- Resolving a text makes its calls in turn and settles on the outcome. -/
theorem resolve_eq_makeAll :
    markers.resolve text = (do
      let indices ← Sampling.makeAll (markers.calls text)
      Sampling.settle (markers.outcome text indices)) :=
  Draft.foldlM_step_finish _ {} _

/-- The structure check finds the fault of the outcome. -/
theorem checkPairing_eq_outcome (indices : List Nat) :
    markers.checkPairing text = (markers.outcome text indices).map fun _ => () :=
  Draft.checkLexemes_eq_outcome _ {} _ indices

/-- The outcome of a text that passes the structure check is a text. -/
theorem exists_outcome_eq_ok {markers : Markers} {text : String}
    (hsound : markers.checkPairing text = .ok ()) (indices : List Nat) :
    ∃ output, markers.outcome text indices = .ok output := by
  rw [markers.checkPairing_eq_outcome text indices] at hsound
  cases houtcome : markers.outcome text indices with
  | error fault => simp [houtcome, Except.map] at hsound
  | ok output => exact ⟨output, rfl⟩

/-- If all calls are answered, resolving settles on the outcome and has recorded each call. -/
theorem resolve_of_some {tape : Tape} {indices : List Nat} {after : Source}
    (hchosen : tape.source.chooseAll? ((markers.calls text).map Call.count) =
      some (indices, after)) :
    markers.resolve text tape = Sampling.settle (markers.outcome text indices)
      ⟨after, (List.zipWith Call.report (markers.calls text) indices).reverse ++ tape.events⟩ := by
  rw [resolve_eq_makeAll, Sampling.bind_of_ok (Sampling.makeAll_of_some hchosen)]

/-- If a call is not answered, resolving stalls. -/
theorem resolve_of_none {tape : Tape}
    (hstalled : tape.source.chooseAll? ((markers.calls text).map Call.count) = none) :
    ∃ stuck, markers.resolve text tape = .error .stalled stuck := by
  obtain ⟨stuck, hstuck⟩ := Sampling.makeAll_of_none hstalled
  exact ⟨stuck, by rw [resolve_eq_makeAll, Sampling.bind_of_error hstuck]⟩

/-- The calls are for the closing markers before the one that the check blames, if it blames one, and
else for all of them. -/
theorem map_stop_calls :
    (markers.calls text).map Call.stop =
      match markers.checkPairing text with
      | .error ⟨.closing, position⟩ => (markers.closingStarts text).filter (· < position)
      | _ => markers.closingStarts text := by
  obtain ⟨left, heq, hleft⟩ := closingStarts_eq_append [] (markers.lexemes text)
  have hsorted : (markers.closingStarts text).Pairwise (· < ·) :=
    List.pairwise_map.mpr ((markers.pairwise_start_lexemes text).filter _)
  change markers.closingStarts text = (markers.calls text).map Call.stop ++ left at heq
  change (match markers.checkPairing text with
    | .error ⟨.closing, position⟩ => left.head? = some position
    | _ => left = []) at hleft
  split at hleft
  · obtain ⟨position, later, rfl⟩ := List.exists_cons_of_ne_nil
      (List.ne_nil_of_mem (List.mem_of_head? hleft))
    obtain rfl := Option.some.inj hleft
    rw [heq, List.pairwise_append] at hsorted
    obtain ⟨-, hlater, hbefore⟩ := hsorted
    rw [heq, List.filter_append, List.filter_eq_self.mpr, List.filter_eq_nil_iff.mpr,
      List.append_nil]
    · intro start hmem
      rcases List.mem_cons.mp hmem with rfl | hmem
      · simp
      · have := List.rel_of_pairwise_cons hlater hmem
        simp only [decide_eq_true_eq]
        omega
    · intro start hmem
      simpa using hbefore start hmem _ List.mem_cons_self
  · rw [heq, hleft, List.append_nil]

/-- Resolving a text that passes the structure check makes one call for each closing marker. -/
theorem length_calls {markers : Markers} {text : String}
    (hsound : markers.checkPairing text = .ok ()) :
    (markers.calls text).length = (markers.tokens text).count (.mark .closing) := by
  have hstops := markers.map_stop_calls text
  rw [hsound] at hstops
  rw [← List.length_map Call.stop, hstops, closingStarts, Spintax.closingStarts, List.length_map,
    ← List.countP_eq_length_filter, tokens, List.count, List.countP_map]
  rfl

/-- Resolving and the structure check never disagree.

Resolving makes the listed calls up to the marker that the check blames. It stalls just when one of them is
not answered, and otherwise ends with an output or with the fault that the check finds. -/
theorem resolve_agrees_with_checkPairing :
    markers.resolve text = (do
      let indices ← Sampling.makeAll (markers.calls text)
      Sampling.settle (markers.outcome text indices)) ∧
    (∀ call ∈ markers.calls text, 0 < call.count) ∧
    ((markers.calls text).map Call.stop =
      match markers.checkPairing text with
      | .error ⟨.closing, position⟩ => (markers.closingStarts text).filter (· < position)
      | _ => markers.closingStarts text) ∧
    ∀ tape : Tape, match tape.source.chooseAll? ((markers.calls text).map Call.count) with
      | some (indices, after) =>
        let last : Tape :=
          ⟨after, (List.zipWith Call.report (markers.calls text) indices).reverse ++ tape.events⟩
        match markers.checkPairing text with
        | .ok _ => ∃ output, markers.resolve text tape = .ok output last
        | .error fault => markers.resolve text tape = .error (.malformed fault) last
      | none => ∃ stuck, markers.resolve text tape = .error .stalled stuck := by
  refine ⟨markers.resolve_eq_makeAll text, count_pos_of_mem_callsFrom (by simp),
    markers.map_stop_calls text, fun tape => ?_⟩
  cases hchosen : tape.source.chooseAll? ((markers.calls text).map Call.count) with
  | none => exact markers.resolve_of_none text hchosen
  | some chosen =>
    obtain ⟨indices, after⟩ := chosen
    simp only [markers.resolve_of_some text hchosen, markers.checkPairing_eq_outcome text indices]
    cases markers.outcome text indices with
    | ok output => exact ⟨output, rfl⟩
    | error fault => rfl

end Markers

end Spintax
