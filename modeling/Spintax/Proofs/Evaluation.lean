import Spintax.Proofs.Calls
import Spintax.Proofs.Outline

/-!
# Resolving a text evaluates its outline

An outline is evaluated from the indices drawn. A run of text is its own value. For a group all
alternatives are evaluated first, in order, also those that are not chosen; then the next index is
used and picks one of their values. So the indices are used in the order of the closing markers.

Resolving keeps a stack of groups that are half read, but it comes to the same value and makes its
calls for the same numbers of alternatives in the same order: inside a group that is open, reading a
forest writes its value to the alternative in progress and uses up the indices of its groups.
-/

namespace Spintax

/-- How many alternatives there are. -/
def Alternatives.length : Alternatives → Nat
  | .last _ => 1
  | .more _ others => others.length + 1

mutual

/-- The numbers of alternatives of the groups of a forest, each group after those inside it. -/
def Forest.counts : Forest → List Nat
  | .nil => []
  | .text _ rest => rest.counts
  | .group alternatives rest => alternatives.counts ++ alternatives.length :: rest.counts

/-- The numbers of alternatives of the groups inside alternatives. -/
def Alternatives.counts : Alternatives → List Nat
  | .last forest => forest.counts
  | .more forest others => forest.counts ++ others.counts

end

/-- The numbers of alternatives of the groups of an outline, each group after those inside it. -/
def Outline.counts : Outline → List Nat
  | .nil => []
  | .text _ rest => rest.counts
  | .separator rest => rest.counts
  | .group alternatives rest => alternatives.counts ++ alternatives.length :: rest.counts

mutual

/-- The value of a forest, and the indices that are left over. -/
def Forest.evaluate : Forest → List Nat → String × List Nat
  | .nil, indices => ("", indices)
  | .text chunk rest, indices =>
    let (value, left) := rest.evaluate indices
    (chunk ++ value, left)
  | .group alternatives rest, indices =>
    let (values, left) := alternatives.evaluate indices
    let (value, unused) := rest.evaluate left.tail
    (values.getD (left.headD 0) "" ++ value, unused)

/-- The values of all alternatives in order, and the indices that are left over. -/
def Alternatives.evaluate : Alternatives → List Nat → List String × List Nat
  | .last forest, indices =>
    let (value, left) := forest.evaluate indices
    ([value], left)
  | .more forest others, indices =>
    let (value, left) := forest.evaluate indices
    let (values, unused) := others.evaluate left
    (value :: values, unused)

end

/-- The value of an outline. A separator outside every group is text. -/
def Outline.evaluate (separator : String) : Outline → List Nat → String
  | .nil, _ => ""
  | .text chunk rest, indices => chunk ++ rest.evaluate separator indices
  | .separator rest, indices => separator ++ rest.evaluate separator indices
  | .group alternatives rest, indices =>
    let (values, left) := alternatives.evaluate indices
    values.getD (left.headD 0) "" ++ rest.evaluate separator left.tail

/-- Lexemes whose tokens enclose a row of tokens between two others. -/
theorem exists_lexemes_of_map_token {lexemes : List Lexeme} {first last : Token}
    {inner outer : List Token}
    (hmap : lexemes.map Lexeme.token = first :: (inner ++ last :: outer)) :
    ∃ (start stop : Nat) (within : List Lexeme) (start' stop' : Nat) (behind : List Lexeme),
      lexemes = ⟨first, start, stop⟩ :: (within ++ ⟨last, start', stop'⟩ :: behind) ∧
        within.map Lexeme.token = inner ∧ behind.map Lexeme.token = outer := by
  obtain ⟨⟨_, start, stop⟩, tail, rfl, rfl, htail⟩ := List.map_eq_cons_iff.mp hmap
  obtain ⟨within, tail', rfl, rfl, htail'⟩ := List.map_eq_append_iff.mp htail
  obtain ⟨⟨_, start', stop'⟩, behind, rfl, rfl, rfl⟩ := List.map_eq_cons_iff.mp htail'
  exact ⟨start, stop, within, start', stop', behind, rfl, rfl, rfl⟩

section

open Draft

mutual

/-- Taking in a forest writes its value and uses up the indices of its groups. -/
theorem Forest.outcome_append (separator : String) : (forest : Forest) → (lexemes : List Lexeme) →
    lexemes.map Lexeme.token = forest.tokens →
    (draft : Draft) → (later : List Lexeme) → (indices : List Nat) →
    draft.outcome separator (lexemes ++ later) indices =
      (draft.write (forest.evaluate indices).1).outcome separator later (forest.evaluate indices).2
  | .nil, lexemes, hmap, draft, later, indices => by
    rw [List.map_eq_nil_iff.mp hmap, Forest.evaluate, write_empty, List.nil_append]
  | .text chunk rest, lexemes, hmap, draft, later, indices => by
    obtain ⟨⟨_, start, stop⟩, tail, rfl, rfl, htail⟩ := List.map_eq_cons_iff.mp hmap
    rw [List.cons_append, outcome_text, rest.outcome_append separator tail htail, write_write]
    rfl
  | .group alternatives rest, lexemes, hmap, draft, later, indices => by
    obtain ⟨start, stop, within, start', stop', behind, rfl, hwithin, hbehind⟩ :=
      exists_lexemes_of_map_token hmap
    rw [List.cons_append, List.append_assoc, List.cons_append, outcome_opening, beginGroup,
      alternatives.outcome_append separator within hwithin,
      rest.outcome_append separator behind hbehind, write_write]
    rfl

/-- Taking in alternatives and their closing marker, when the group has finished some before, writes
the value at the next index to what is around the group. -/
theorem Alternatives.outcome_append (separator : String) : (alternatives : Alternatives) →
    (lexemes : List Lexeme) → lexemes.map Lexeme.token = alternatives.tokens →
    (began : Nat) → (finished : List String) → (outer : List PendingGroup) → (output : String) →
    (start stop : Nat) → (later : List Lexeme) → (indices : List Nat) →
    outcome separator ⟨⟨began, finished, ""⟩ :: outer, output⟩
        (lexemes ++ ⟨.mark .closing, start, stop⟩ :: later) indices =
      outcome separator (write ⟨outer, output⟩
        ((finished.reverse ++ (alternatives.evaluate indices).1).getD
          ((alternatives.evaluate indices).2.headD 0) "")) later (alternatives.evaluate indices).2.tail
  | .last forest, lexemes, hmap, began, finished, outer, output, start, stop, later, indices => by
    rw [forest.outcome_append separator lexemes hmap, write, outcome_closing, Alternatives.evaluate,
      PendingGroup.alternatives, List.reverse_cons, String.empty_append]
  | .more forest others, lexemes, hmap, began, finished, outer, output, start, stop, later,
      indices => by
    obtain ⟨first, tail, rfl, hfirst, htail⟩ := List.map_eq_append_iff.mp hmap
    obtain ⟨⟨_, start', stop'⟩, behind, rfl, rfl, hbehind⟩ := List.map_eq_cons_iff.mp htail
    rw [List.append_assoc, List.cons_append, forest.outcome_append separator first hfirst, write,
      outcome_separator, separate, others.outcome_append separator behind hbehind,
      Alternatives.evaluate, List.reverse_cons, List.append_assoc, String.empty_append]
    rfl

end

mutual

/-- The calls for a forest are for its numbers of alternatives, in order. -/
theorem Forest.counts_callsFrom : (forest : Forest) → (lexemes : List Lexeme) →
    lexemes.map Lexeme.token = forest.tokens →
    (pending : List (Nat × Nat)) → (later : List Lexeme) →
    (callsFrom pending (lexemes ++ later)).map Call.count =
      forest.counts ++ (callsFrom pending later).map Call.count
  | .nil, lexemes, hmap, pending, later => by
    rw [List.map_eq_nil_iff.mp hmap, Forest.counts, List.nil_append, List.nil_append]
  | .text chunk rest, lexemes, hmap, pending, later => by
    obtain ⟨⟨_, start, stop⟩, tail, rfl, rfl, htail⟩ := List.map_eq_cons_iff.mp hmap
    exact rest.counts_callsFrom tail htail pending later
  | .group alternatives rest, lexemes, hmap, pending, later => by
    obtain ⟨start, stop, within, start', stop', behind, rfl, hwithin, hbehind⟩ :=
      exists_lexemes_of_map_token hmap
    rw [List.cons_append, List.append_assoc, List.cons_append, callsFrom_opening,
      alternatives.counts_callsFrom within hwithin start 0 pending,
      rest.counts_callsFrom behind hbehind, Forest.counts, Nat.zero_add, List.append_assoc,
      List.cons_append]

/-- The calls for alternatives and their closing marker, when the group has finished `before`. -/
theorem Alternatives.counts_callsFrom : (alternatives : Alternatives) → (lexemes : List Lexeme) →
    lexemes.map Lexeme.token = alternatives.tokens →
    (began before : Nat) → (pending : List (Nat × Nat)) → (start stop : Nat) →
    (later : List Lexeme) →
    (callsFrom ((began, before + 1) :: pending)
        (lexemes ++ ⟨.mark .closing, start, stop⟩ :: later)).map Call.count =
      alternatives.counts ++
        (before + alternatives.length) :: (callsFrom pending later).map Call.count
  | .last forest, lexemes, hmap, began, before, pending, start, stop, later =>
    forest.counts_callsFrom lexemes hmap _ _
  | .more forest others, lexemes, hmap, began, before, pending, start, stop, later => by
    obtain ⟨first, tail, rfl, hfirst, htail⟩ := List.map_eq_append_iff.mp hmap
    obtain ⟨⟨_, start', stop'⟩, behind, rfl, rfl, hbehind⟩ := List.map_eq_cons_iff.mp htail
    rw [List.append_assoc, List.cons_append, forest.counts_callsFrom first hfirst,
      callsFrom_separator, others.counts_callsFrom behind hbehind, Alternatives.counts,
      Alternatives.length, List.append_assoc, Nat.add_assoc, Nat.add_comm 1]

end

/-- Outside every group, taking in an outline writes its value to the output. -/
theorem Outline.outcome_eq (separator : String) (outline : Outline) {lexemes : List Lexeme}
    (hmap : lexemes.map Lexeme.token = outline.tokens) (output : String) (indices : List Nat) :
    outcome separator ⟨[], output⟩ lexemes indices =
      .ok (output ++ outline.evaluate separator indices) := by
  induction outline generalizing lexemes output indices with
  | nil =>
    rw [List.map_eq_nil_iff.mp hmap, evaluate, String.append_empty]
    rfl
  | text chunk rest ih =>
    obtain ⟨⟨_, start, stop⟩, tail, rfl, rfl, htail⟩ := List.map_eq_cons_iff.mp hmap
    rw [outcome_text, write, ih htail, evaluate, String.append_assoc]
  | separator rest ih =>
    obtain ⟨⟨_, start, stop⟩, tail, rfl, rfl, htail⟩ := List.map_eq_cons_iff.mp hmap
    rw [outcome_separator, separate, ih htail, evaluate, String.append_assoc]
  | group alternatives rest ih =>
    obtain ⟨start, stop, within, start', stop', behind, rfl, hwithin, hbehind⟩ :=
      exists_lexemes_of_map_token hmap
    rw [outcome_opening, beginGroup, alternatives.outcome_append separator within hwithin, write,
      ih hbehind, evaluate, String.append_assoc]
    rfl

/-- The calls for an outline are for its numbers of alternatives, in order. -/
theorem Outline.counts_callsFrom (outline : Outline) {lexemes : List Lexeme}
    (hmap : lexemes.map Lexeme.token = outline.tokens) :
    (callsFrom [] lexemes).map Call.count = outline.counts := by
  induction outline generalizing lexemes with
  | nil => rw [List.map_eq_nil_iff.mp hmap, counts, callsFrom, List.map_nil]
  | text chunk rest ih =>
    obtain ⟨⟨_, start, stop⟩, tail, rfl, rfl, htail⟩ := List.map_eq_cons_iff.mp hmap
    have hrest := ih htail
    exact hrest
  | separator rest ih =>
    obtain ⟨⟨_, start, stop⟩, tail, rfl, rfl, htail⟩ := List.map_eq_cons_iff.mp hmap
    have hrest := ih htail
    exact hrest
  | group alternatives rest ih =>
    obtain ⟨start, stop, within, start', stop', behind, rfl, hwithin, hbehind⟩ :=
      exists_lexemes_of_map_token hmap
    rw [callsFrom_opening, alternatives.counts_callsFrom within hwithin start 0, ih hbehind, counts,
      Nat.zero_add]

end

namespace Markers

variable {markers : Markers} {text : String}

/-- The tokens of a text that passes the structure check are those of just one outline. -/
theorem exists_outline (hsound : markers.checkPairing text = .ok ()) :
    ∃ outline : Outline, ∀ other : Outline,
      other.tokens = markers.tokens text ↔ other = outline := by
  obtain ⟨outline, htokens⟩ := Outline.exists_tokens_eq hsound
  refine ⟨outline, fun other => ⟨fun hother => ?_, fun heq => heq ▸ htokens⟩⟩
  exact Outline.tokens_injective (hother.trans htokens.symm)

/-- The outcome of a text is the value of its outline. -/
theorem outcome_eq_evaluate {outline : Outline} (htokens : outline.tokens = markers.tokens text)
    (indices : List Nat) :
    markers.outcome text indices = .ok (outline.evaluate (markers.get .separator) indices) := by
  have houtcome := outline.outcome_eq (markers.get .separator) htokens.symm "" indices
  rwa [String.empty_append] at houtcome

/-- The calls for a text are for the numbers of alternatives in its outline. -/
theorem map_count_calls {outline : Outline} (htokens : outline.tokens = markers.tokens text) :
    (markers.calls text).map Call.count = outline.counts :=
  outline.counts_callsFrom htokens.symm

/-- Resolving a text that passes the structure check evaluates its one outline.

The calls are one for each closing marker, in order, for the number of alternatives of its group. If they are
answered, the output is the value of the outline at the indices drawn. -/
theorem resolve_evaluates_outline (hsound : markers.checkPairing text = .ok ()) :
    ∃ outline : Outline,
      (∀ other : Outline, other.tokens = markers.tokens text ↔ other = outline) ∧
      (∀ lexeme ∈ markers.lexemes text, markers.delimiters.Covers lexeme text.toList) ∧
      (markers.calls text).map Call.stop = markers.closingStarts text ∧
      (markers.calls text).map Call.count = outline.counts ∧
      markers.resolve text = (do
        let indices ← Sampling.makeAll (markers.calls text)
        pure (outline.evaluate (markers.get .separator) indices)) ∧
      ∀ tape : Tape, match tape.source.chooseAll? outline.counts with
        | some (indices, after) =>
          List.Forall₂ (· < ·) indices outline.counts ∧
            markers.resolve text tape = .ok (outline.evaluate (markers.get .separator) indices)
              ⟨after, (List.zipWith Call.report (markers.calls text) indices).reverse ++ tape.events⟩
        | none => ∃ stuck, markers.resolve text tape = .error .stalled stuck := by
  obtain ⟨outline, hunique⟩ := exists_outline hsound
  have htokens := (hunique outline).mpr rfl
  have hcounts := map_count_calls htokens
  have hpos : ∀ count ∈ outline.counts, 0 < count := by
    intro count hmem
    rw [← hcounts, List.mem_map] at hmem
    obtain ⟨call, hcall, rfl⟩ := hmem
    exact count_pos_of_mem_callsFrom (by simp) call hcall
  refine ⟨outline, hunique, fun _ => markers.covers_of_mem_lexemes text, ?_, hcounts, ?_,
    fun tape => ?_⟩
  · rw [markers.map_stop_calls text, hsound]
  · rw [markers.resolve_eq_makeAll]
    simp only [outcome_eq_evaluate htokens, Sampling.settle]
  · cases hchosen : tape.source.chooseAll? outline.counts with
    | none => exact markers.resolve_of_none text (by rw [hcounts, hchosen])
    | some chosen =>
      obtain ⟨indices, after⟩ := chosen
      refine ⟨Source.forall₂_lt_of_chooseAll? hpos hchosen, ?_⟩
      rw [markers.resolve_of_some text (by rw [hcounts, hchosen]), outcome_eq_evaluate htokens]
      rfl

/-- A group inside another, an empty alternative and a separator outside every group: the inner group
is chosen from first, and at the indices `1` and `1` the output is `bc|d`. -/
theorem resolve_evaluates_outline_nested :
    Markers.default.checkPairing "\x7ba|b\x7b|c\x7d\x7d|d" = .ok () ∧
      ∃ after, Markers.default.resolve "\x7ba|b\x7b|c\x7d\x7d|d"
        { source := .ofList [.ofNat (1 <<< 63), .ofNat (5 <<< 61)] } = .ok "bc|d" after := by
  have hsound : Markers.default.checkPairing "\x7ba|b\x7b|c\x7d\x7d|d" = .ok () := by decide +kernel
  have hchosen : (Source.ofList [.ofNat (1 <<< 63), .ofNat (5 <<< 61)]).chooseAll? [2, 2] =
      some ([1, 1], { Source.ofList [.ofNat (1 <<< 63), .ofNat (5 <<< 61)] with position := 2 }) :=
    Source.chooseAll?_ofList (.cons rfl (.cons rfl .nil))
  obtain ⟨outline, hunique, -, -, -, -, hrun⟩ := resolve_evaluates_outline hsound
  have houtline := (hunique (.group (.more (.text "a" .nil) (.last (.text "b"
    (.group (.more .nil (.last (.text "c" .nil))) .nil)))) (.separator (.text "d" .nil)))).mp (by decide +kernel)
  have hcounts : outline.counts = [2, 2] := by rw [← houtline]; rfl
  have hvalue : outline.evaluate "|" [1, 1] = "bc|d" := by rw [← houtline]; rfl
  refine ⟨hsound, ?_⟩
  generalize Source.ofList [.ofNat (1 <<< 63), .ofNat (5 <<< 61)] = source at hchosen ⊢
  have hlast := hrun { source := source }
  rw [hcounts] at hlast
  simp only [hchosen] at hlast
  exact ⟨_, hvalue ▸ hlast.2⟩

end Markers

end Spintax
