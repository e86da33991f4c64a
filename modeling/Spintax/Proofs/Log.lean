import Spintax.Proofs.Failing

/-!
# The log of a run

A run puts its events in front of those that the tape holds already. What it adds is its log, read
here in the order of reporting. The events of groups are the only ones that have to do with draws:
each stands for one choice, among as many alternatives as it says and with the answer that it says.
So a log is true to the source when the choices of its group events, made one after another from the
source as it was before, give just these answers and lead to the source as it is afterwards. Logs of
runs that follow one another are joined.

Resolving a text logs its groups in the order of their closing markers, until it ends. Applying the
entries of a table logs, for each value that is used, the groups of this value and then its name.
-/

namespace Spintax

/-- How many alternatives a group had and which of them was chosen, if the event is of a group. -/
def Event.choice? : Event → Option (Nat × Nat)
  | .resolvedGroup _ alternatives chosen => some (alternatives, chosen)
  | _ => none

/-- The choices that a log tells of, in their order. -/
def choices (log : List Event) : List (Nat × Nat) :=
  log.filterMap Event.choice?

/-- The choices of a log that goes on are those before and those after. -/
theorem choices_append (log more : List Event) : choices (log ++ more) = choices log ++ choices more :=
  List.filterMap_append

/-- The events of groups, given by their calls and by the indices that answer these. -/
def reports (groups : List (Call × Nat)) : List Event :=
  groups.map fun group => group.1.report group.2

/-- The choices in the reports of calls are their counts and answers. -/
theorem choices_reports (groups : List (Call × Nat)) :
    choices (reports groups) = groups.map fun group => (group.1.count, group.2) := by
  rw [choices, reports, List.filterMap_map]
  exact congrFun List.filterMap_eq_map groups

/-- The events of the log have been added between two tapes, and the choices that the log tells of
are those made on the source in between. -/
structure Logged (before : Tape) (log : List Event) (after : Tape) : Prop where
  events_eq : after.events = log.reverse ++ before.events
  chooseAll?_eq : before.source.chooseAll? ((choices log).map Prod.fst) =
    some ((choices log).map Prod.snd, after.source)

namespace Logged

variable {before between after : Tape} {log more : List Event}

/-- Where nothing is logged, the tape stays the same. -/
theorem nil (tape : Tape) : Logged tape [] tape where
  events_eq := rfl
  chooseAll?_eq := rfl

/-- An event that is not of a group makes no choice. -/
theorem report {event : Event} (hevent : event.choice? = none) (tape : Tape) :
    Logged tape [event] { tape with events := event :: tape.events } where
  events_eq := rfl
  chooseAll?_eq := by
    rw [choices, List.filterMap_cons_none hevent]
    rfl

/-- A call that is answered is logged by its report. -/
theorem call {call : Call} {tape : Tape} {index : Nat} {next : Source}
    (hchosen : tape.source.choose? call.count = some (index, next)) :
    Logged tape [call.report index] ⟨next, call.report index :: tape.events⟩ where
  events_eq := rfl
  chooseAll?_eq := Source.chooseAll?_cons.mpr ⟨index, next, [], hchosen, rfl, rfl⟩

/-- The logs of two stretches are joined. -/
theorem append (hfirst : Logged before log between) (hsecond : Logged between more after) :
    Logged before (log ++ more) after where
  events_eq := by
    rw [hsecond.events_eq, hfirst.events_eq, List.reverse_append, List.append_assoc]
  chooseAll?_eq := by
    rw [choices_append, List.map_append, List.map_append]
    exact Source.chooseAll?_append hfirst.chooseAll?_eq hsecond.chooseAll?_eq

/-- A source only ever moves on to later draws. -/
theorem exists_skip (hlogged : Logged before log after) :
    ∃ draws, after.source = before.source.skip draws := by
  obtain ⟨made, -, -, -, -, hskip⟩ := Source.chooseAll?_eq_some_iff.mp hlogged.chooseAll?_eq
  exact ⟨made.length, hskip.symm⟩

/-- No group event tells of a choice that is not among the alternatives. -/
theorem chosen_lt {groups : List (Call × Nat)} (hlogged : Logged before (reports groups) after)
    (hpos : ∀ group ∈ groups, 0 < group.1.count) : ∀ group ∈ groups, group.2 < group.1.count := by
  have hchosen := hlogged.chooseAll?_eq
  rw [choices_reports, List.map_map, List.map_map] at hchosen
  have hlt := Source.forall₂_lt_of_chooseAll? (List.forall_mem_map.mpr hpos) hchosen
  rwa [List.forall₂_map_left_iff, List.forall₂_map_right_iff, List.forall₂_same] at hlt

end Logged

namespace Sampling

/-- The tape behind a run, whether it has a result or fails. -/
def tapeAfter {α : Type} (computation : Sampling α) (tape : Tape) : Tape :=
  match computation tape with
  | .ok _ last => last
  | .error _ last => last

section

variable {α : Type} {computation : Sampling α} {tape last : Tape}

/-- The tape after a success is the last one. -/
theorem tapeAfter_of_ok {value : α} (hrun : computation tape = .ok value last) :
    computation.tapeAfter tape = last := by
  rw [tapeAfter, hrun]

/-- The tape after a failure is the last one. -/
theorem tapeAfter_of_error {error : SpinError} (hrun : computation tape = .error error last) :
    computation.tapeAfter tape = last := by
  rw [tapeAfter, hrun]

/-- Settling touches nothing. -/
theorem tapeAfter_settle (outcome : Except Malformed α) (tape : Tape) :
    (settle outcome).tapeAfter tape = tape := by
  cases outcome <;> rfl

end

/-- A row of calls logs the calls that are answered: all of them, or those before the first that is
not, and then it stalls. -/
theorem makeAll_cases (calls : List Call) (tape : Tape) :
    ∃ groups last, Logged tape (reports groups) last ∧
      (makeAll calls tape = .ok (groups.map Prod.snd) last ∧ groups.map Prod.fst = calls ∨
        makeAll calls tape = .error .stalled last ∧ groups.map Prod.fst <+: calls) := by
  induction calls generalizing tape with
  | nil => exact ⟨[], tape, .nil tape, .inl ⟨rfl, rfl⟩⟩
  | cons call rest ih =>
    rw [makeAll_cons]
    cases hchosen : tape.source.choose? call.count with
    | none =>
      exact ⟨[], tape, .nil tape, .inr ⟨bind_of_error (make_of_none hchosen), List.nil_prefix⟩⟩
    | some answer =>
      obtain ⟨index, next⟩ := answer
      obtain ⟨groups, last, hlogged, hends⟩ := ih ⟨next, call.report index :: tape.events⟩
      refine ⟨(call, index) :: groups, last, (Logged.call hchosen).append hlogged, ?_⟩
      rw [bind_of_ok (make_of_some hchosen)]
      rcases hends with ⟨hrun, hcalls⟩ | ⟨hrun, hcalls⟩
      · exact .inl ⟨bind_of_ok hrun, congrArg (call :: ·) hcalls⟩
      · exact .inr ⟨bind_of_error hrun, List.cons_prefix_cons.mpr ⟨rfl, hcalls⟩⟩

end Sampling

namespace Markers

variable {markers : Markers}

/-- Resolving a text logs the groups whose calls are answered. If all of them are, it ends with the
outcome; else it stalls. -/
theorem resolve_log (markers : Markers) (text : String) (tape : Tape) :
    ∃ groups last, Logged tape (reports groups) last ∧
      (markers.resolve text tape =
            Sampling.settle (markers.outcome text (groups.map Prod.snd)) last ∧
          groups.map Prod.fst = markers.calls text ∨
        markers.resolve text tape = .error .stalled last ∧
          groups.map Prod.fst <+: markers.calls text) := by
  obtain ⟨groups, last, hlogged, hends⟩ := Sampling.makeAll_cases (markers.calls text) tape
  refine ⟨groups, last, hlogged, ?_⟩
  rw [resolve_eq_makeAll]
  rcases hends with ⟨hrun, hcalls⟩ | ⟨hrun, hcalls⟩
  · exact .inl ⟨Sampling.bind_of_ok hrun, hcalls⟩
  · exact .inr ⟨Sampling.bind_of_error hrun, hcalls⟩

/-- A run that resolves a text logs all of its groups. -/
theorem resolve_log_of_ok {text output : String} {tape last : Tape}
    (hresolve : markers.resolve text tape = .ok output last) :
    ∃ groups, groups.map Prod.fst = markers.calls text ∧ Logged tape (reports groups) last := by
  obtain ⟨groups, behind, hlogged, ⟨hrun, hcalls⟩ | ⟨hrun, -⟩⟩ := markers.resolve_log text tape
  · have hbehind := Sampling.tapeAfter_settle (markers.outcome text (groups.map Prod.snd)) behind
    rw [Sampling.tapeAfter_of_ok (hrun.symm.trans hresolve)] at hbehind
    exact ⟨groups, hcalls, hbehind ▸ hlogged⟩
  · cases hrun.symm.trans hresolve

/-- A run that fails to resolve a text logs the groups whose calls are answered, and these are all
unless it stalls. -/
theorem resolve_log_of_error {text : String} {tape stuck : Tape} {error : SpinError}
    (hresolve : markers.resolve text tape = .error error stuck) :
    ∃ groups, groups.map Prod.fst <+: markers.calls text ∧
      (error ≠ .stalled → groups.map Prod.fst = markers.calls text) ∧
      Logged tape (reports groups) stuck := by
  obtain ⟨groups, behind, hlogged, ⟨hrun, hcalls⟩ | ⟨hrun, hcalls⟩⟩ :=
    markers.resolve_log text tape
  · have hbehind := Sampling.tapeAfter_settle (markers.outcome text (groups.map Prod.snd)) behind
    rw [Sampling.tapeAfter_of_error (hrun.symm.trans hresolve)] at hbehind
    exact ⟨groups, hcalls ▸ List.prefix_rfl, fun _ => hcalls, hbehind ▸ hlogged⟩
  · cases hrun.symm.trans hresolve
    exact ⟨groups, hcalls, fun hne => absurd rfl hne, hlogged⟩

end Markers

end Spintax
