import Mathlib.Data.List.GetD
import Mathlib.Data.Set.Insert
import Spintax.Proofs.Evaluation
import Spintax.Proofs.Signs

/-!
# The outputs of a text are the expansions of its forest

An expansion of a forest keeps every run of text and puts an expansion of one of its alternatives in
the place of every group. When the markers are three different characters and the runs of text have
none of them, a forest can be written out as a text and resolved. Over all sources the outputs are
just the expansions.

No other output arises because the indices drawn are below the numbers of alternatives. For the other
direction indices are collected for an expansion. Groups in alternatives that are not chosen need
indices as well, and any will do. Each row of such indices is the row of answers of some stream.
-/

namespace Spintax

mutual

/-- The texts that a forest expands to. -/
def Forest.expansions : Forest → Set String
  | .nil => {""}
  | .text chunk rest => {output | ∃ value ∈ rest.expansions, chunk ++ value = output}
  | .group alternatives rest =>
    {output | ∃ chosen ∈ alternatives.expansions, ∃ value ∈ rest.expansions,
      chosen ++ value = output}

/-- The texts that one of the alternatives expands to. -/
def Alternatives.expansions : Alternatives → Set String
  | .last forest => forest.expansions
  | .more forest others => forest.expansions ∪ others.expansions

end

/-- A row that stays below two rows, one behind the other, has a part for each of them. -/
theorem exists_of_forall₂_append {indices left right : List Nat}
    (hindices : List.Forall₂ (· < ·) indices (left ++ right)) :
    ∃ first second, indices = first ++ second ∧
      List.Forall₂ (· < ·) first left ∧ List.Forall₂ (· < ·) second right :=
  ⟨indices.take left.length, indices.drop left.length, (List.take_append_drop _ _).symm,
    List.forall₂_take_append _ _ _ hindices, List.forall₂_drop_append _ _ _ hindices⟩

/-- A group has at least one alternative. -/
theorem Alternatives.length_pos (alternatives : Alternatives) : 0 < alternatives.length := by
  cases alternatives with
  | last forest => exact Nat.one_pos
  | more forest others => exact Nat.succ_pos _

mutual

/-- Evaluating a forest uses up indices that are below its numbers of alternatives, and its value is
one of its expansions. -/
theorem Forest.exists_evaluate : (forest : Forest) → (indices : List Nat) →
    List.Forall₂ (· < ·) indices forest.counts →
    ∃ value ∈ forest.expansions, ∀ later, forest.evaluate (indices ++ later) = (value, later)
  | .nil, indices, hindices => by
    obtain rfl := List.forall₂_nil_right_iff.mp hindices
    exact ⟨"", rfl, fun later => rfl⟩
  | .text chunk rest, indices, hindices => by
    obtain ⟨value, hvalue, hrest⟩ := rest.exists_evaluate indices hindices
    refine ⟨chunk ++ value, ⟨value, hvalue, rfl⟩, fun later => ?_⟩
    rw [Forest.evaluate, hrest]
  | .group alternatives rest, indices, hindices => by
    obtain ⟨inner, outer, rfl, hinner, houter⟩ := exists_of_forall₂_append hindices
    obtain ⟨index, behind, hindex, hbehind, rfl⟩ := List.forall₂_cons_right_iff.mp houter
    obtain ⟨values, hlength, hvalues, halternatives⟩ := alternatives.exists_evaluate inner hinner
    obtain ⟨value, hvalue, hrest⟩ := rest.exists_evaluate behind hbehind
    rw [← hlength] at hindex
    refine ⟨values.getD index "" ++ value, ⟨_, ?_, value, hvalue, rfl⟩, fun later => ?_⟩
    · rw [List.getD_eq_getElem _ _ hindex]
      exact hvalues _ (List.getElem_mem hindex)
    · rw [List.append_assoc, Forest.evaluate, halternatives]
      simp only [List.cons_append, List.tail_cons, List.headD_cons, hrest]

/-- Evaluating alternatives uses up indices that are below their numbers of alternatives, and the
values are expansions of the alternatives. -/
theorem Alternatives.exists_evaluate : (alternatives : Alternatives) → (indices : List Nat) →
    List.Forall₂ (· < ·) indices alternatives.counts →
    ∃ values, values.length = alternatives.length ∧
      (∀ value ∈ values, value ∈ alternatives.expansions) ∧
      ∀ later, alternatives.evaluate (indices ++ later) = (values, later)
  | .last forest, indices, hindices => by
    obtain ⟨value, hvalue, hforest⟩ := forest.exists_evaluate indices hindices
    refine ⟨[value], rfl, List.forall_mem_singleton.mpr hvalue, fun later => ?_⟩
    rw [Alternatives.evaluate, hforest]
  | .more forest others, indices, hindices => by
    obtain ⟨first, second, rfl, hfirst, hsecond⟩ := exists_of_forall₂_append hindices
    obtain ⟨value, hvalue, hforest⟩ := forest.exists_evaluate first hfirst
    obtain ⟨values, hlength, hvalues, hothers⟩ := others.exists_evaluate second hsecond
    refine ⟨value :: values, congrArg (· + 1) hlength, ?_, fun later => ?_⟩
    · exact List.forall_mem_cons.mpr ⟨.inl hvalue, fun value hmem => .inr (hvalues value hmem)⟩
    · rw [List.append_assoc, Alternatives.evaluate, hforest]
      simp only [hothers]

end

mutual

/-- All groups of a forest have alternatives. -/
theorem Forest.counts_pos : (forest : Forest) → ∀ count ∈ forest.counts, 0 < count
  | .nil => by simp [Forest.counts]
  | .text _ rest => rest.counts_pos
  | .group alternatives rest =>
    List.forall_mem_append.mpr ⟨alternatives.counts_pos,
      List.forall_mem_cons.mpr ⟨alternatives.length_pos, rest.counts_pos⟩⟩

/-- All groups inside alternatives have alternatives. -/
theorem Alternatives.counts_pos : (alternatives : Alternatives) →
    ∀ count ∈ alternatives.counts, 0 < count
  | .last forest => forest.counts_pos
  | .more forest others => List.forall_mem_append.mpr ⟨forest.counts_pos, others.counts_pos⟩

end

/-- Zeros are below numbers that are positive. -/
theorem forall₂_lt_zeros {counts : List Nat} (hpos : ∀ count ∈ counts, 0 < count) :
    List.Forall₂ (· < ·) (counts.map fun _ => 0) counts :=
  List.forall₂_map_left_iff.mpr (List.forall₂_same.mpr hpos)

mutual

/-- Every expansion of a forest is its value at some indices. -/
theorem Forest.exists_indices : (forest : Forest) → (value : String) → value ∈ forest.expansions →
    ∃ indices, List.Forall₂ (· < ·) indices forest.counts ∧
      ∀ later, forest.evaluate (indices ++ later) = (value, later)
  | .nil, value, hvalue => by
    obtain rfl : value = "" := hvalue
    exact ⟨[], .nil, fun later => rfl⟩
  | .text chunk rest, value, hvalue => by
    obtain ⟨behind, hbehind, rfl⟩ := hvalue
    obtain ⟨indices, hindices, hrest⟩ := rest.exists_indices behind hbehind
    refine ⟨indices, hindices, fun later => ?_⟩
    rw [Forest.evaluate, hrest]
  | .group alternatives rest, value, hvalue => by
    obtain ⟨chosen, hchosen, behind, hbehind, rfl⟩ := hvalue
    obtain ⟨inner, index, hinner, hindex, values, hget, halternatives⟩ :=
      alternatives.exists_indices chosen hchosen
    obtain ⟨outer, houter, hrest⟩ := rest.exists_indices behind hbehind
    refine ⟨inner ++ index :: outer, List.rel_append hinner (.cons hindex houter), fun later => ?_⟩
    rw [List.append_assoc, Forest.evaluate, halternatives]
    simp only [List.cons_append, List.tail_cons, List.headD_cons, hrest, hget]

/-- Every expansion of one of the alternatives is among their values at some indices. -/
theorem Alternatives.exists_indices : (alternatives : Alternatives) → (value : String) →
    value ∈ alternatives.expansions →
    ∃ indices index, List.Forall₂ (· < ·) indices alternatives.counts ∧
      index < alternatives.length ∧
      ∃ values, values.getD index "" = value ∧
        ∀ later, alternatives.evaluate (indices ++ later) = (values, later)
  | .last forest, value, hvalue => by
    obtain ⟨indices, hindices, hforest⟩ := forest.exists_indices value hvalue
    refine ⟨indices, 0, hindices, Nat.one_pos, [value], rfl, fun later => ?_⟩
    rw [Alternatives.evaluate, hforest]
  | .more forest others, value, hvalue => by
    rcases hvalue with hvalue | hvalue
    · -- The groups in the other alternatives get the index zero.
      obtain ⟨first, hfirst, hforest⟩ := forest.exists_indices value hvalue
      have hzeros := forall₂_lt_zeros others.counts_pos
      obtain ⟨values, -, -, hothers⟩ := others.exists_evaluate _ hzeros
      refine ⟨first ++ others.counts.map fun _ => 0, 0, List.rel_append hfirst hzeros,
        Nat.succ_pos _, value :: values, rfl, fun later => ?_⟩
      rw [List.append_assoc, Alternatives.evaluate, hforest]
      simp only [hothers]
    · have hzeros := forall₂_lt_zeros forest.counts_pos
      obtain ⟨unused, -, hforest⟩ := forest.exists_evaluate _ hzeros
      obtain ⟨second, index, hsecond, hindex, values, hget, hothers⟩ :=
        others.exists_indices value hvalue
      refine ⟨(forest.counts.map fun _ => 0) ++ second, index + 1, List.rel_append hzeros hsecond,
        Nat.succ_lt_succ hindex, unused :: values, hget, fun later => ?_⟩
      rw [List.append_assoc, Alternatives.evaluate, hforest]
      simp only [hothers]

end

/-- The expansions of a forest are its values at the indices below its numbers of alternatives. -/
theorem Forest.mem_expansions_iff (forest : Forest) (value : String) :
    value ∈ forest.expansions ↔
      ∃ indices, List.Forall₂ (· < ·) indices forest.counts ∧ (forest.evaluate indices).1 = value := by
  constructor
  · intro hvalue
    obtain ⟨indices, hindices, hevaluate⟩ := forest.exists_indices value hvalue
    have hlast := hevaluate []
    rw [List.append_nil] at hlast
    exact ⟨indices, hindices, congrArg Prod.fst hlast⟩
  · rintro ⟨indices, hindices, rfl⟩
    obtain ⟨value, hvalue, hevaluate⟩ := forest.exists_evaluate indices hindices
    have hlast := hevaluate []
    rw [List.append_nil] at hlast
    rwa [hlast]

/-- The forest written out as a text. -/
def Forest.render (delimiters : Delimiters) (forest : Forest) : String :=
  String.ofList (forest.tokens.flatMap delimiters.written)

/-- The runs of text in a forest have none of the signs. -/
def Forest.HasPlainText (signs : Signs) (forest : Forest) : Prop :=
  ∀ chunk, .text chunk ∈ forest.tokens → ∀ c ∈ chunk.toList, signs.IsPlain c

section

variable (delimiters : Delimiters)

/-- A mark has characters. -/
theorem length_written_mark_pos (mark : Mark) : 0 < (delimiters.written (.mark mark)).length :=
  List.length_pos_iff.mpr (delimiters.chars_ne_nil mark)

/-- All alternatives but the last one have a separator behind them. -/
theorem Alternatives.length_le : (alternatives : Alternatives) →
    alternatives.length ≤ (alternatives.tokens.flatMap delimiters.written).length + 1
  | .last forest => Nat.succ_le_succ (Nat.zero_le _)
  | .more forest others => by
    have hsign := length_written_mark_pos delimiters .separator
    have hlength := others.length_le
    rw [Alternatives.length, Alternatives.tokens, List.flatMap_append, List.flatMap_cons]
    simp only [List.length_append]
    omega

mutual

/-- No group has more alternatives than its forest has characters when it is written out. -/
theorem Forest.count_le : (forest : Forest) → ∀ count ∈ forest.counts,
    count ≤ (forest.tokens.flatMap delimiters.written).length
  | .nil => by simp [Forest.counts]
  | .text chunk rest => fun count hmem => by
    have hle := rest.count_le count hmem
    rw [Forest.tokens, List.flatMap_cons, List.length_append]
    omega
  | .group alternatives rest => fun count hmem => by
    have hsign := length_written_mark_pos delimiters .opening
    have hlength := alternatives.length_le delimiters
    rw [Forest.tokens, List.flatMap_cons, List.flatMap_append, List.flatMap_cons]
    simp only [List.length_append]
    rcases List.mem_append.mp hmem with hmem | hmem
    · have := alternatives.count_le count hmem
      omega
    · rcases List.mem_cons.mp hmem with rfl | hmem
      · omega
      · have := rest.count_le count hmem
        omega

/-- No group inside alternatives has more alternatives than these have characters. -/
theorem Alternatives.count_le : (alternatives : Alternatives) → ∀ count ∈ alternatives.counts,
    count ≤ (alternatives.tokens.flatMap delimiters.written).length
  | .last forest => forest.count_le
  | .more forest others => fun count hmem => by
    rw [Alternatives.tokens, List.flatMap_append, List.flatMap_cons]
    simp only [List.length_append]
    rcases List.mem_append.mp hmem with hmem | hmem
    · have := forest.count_le count hmem
      omega
    · have := others.count_le count hmem
      omega

end

end

namespace Markers

/-- The texts that resolving a text can return: for some stream of draws, and for choices that may
see enough of them. -/
def outputs (markers : Markers) (text : String) : Set String :=
  {output | ∃ (draw : Nat → UInt64) (patience : Nat) (last : Tape),
    markers.resolve text { source := { draw := draw, patience := patience } } = .ok output last}

variable {markers : Markers} {signs : Signs} {forest : Forest}

section

variable (hspelled : markers.delimiters.SpelledBy signs)
  (hdistinct : [signs.opening, signs.closing, signs.separator].Nodup)
  (hplain : forest.HasPlainText signs)

include hspelled hdistinct hplain

/-- A forest that is written out has the same characters as its tokens. -/
theorem flatMap_cut_tokens_of_render :
    forest.tokens.flatMap Token.cut =
      (forest.render markers.delimiters).toList.map signs.tokenOf := by
  rw [Forest.render, String.toList_ofList, List.map_flatMap]
  exact List.flatMap_congr fun token hmem => Delimiters.cut_eq_map_tokenOf hspelled hdistinct
    fun chunk heq => hplain chunk (heq ▸ hmem)

/-- The outcome of a forest that is written out is its value. -/
theorem outcome_render (indices : List Nat) :
    markers.outcome (forest.render markers.delimiters) indices =
      .ok (forest.evaluate indices).1 := by
  rw [outcome_eq_of_cut hspelled (flatMap_cut_tokens_of_render hspelled hdistinct hplain)]
  have houtcome := forest.outcome_append (markers.get .separator) _
    (markers.delimiters.map_token_place 0 forest.tokens) {} [] indices
  rw [List.append_nil] at houtcome
  rw [houtcome, Draft.write, String.empty_append]
  rfl

/-- The calls for a forest that is written out are for its numbers of alternatives. -/
theorem map_count_calls_render :
    (markers.calls (forest.render markers.delimiters)).map Call.count = forest.counts := by
  rw [calls_eq_of_cut hspelled (flatMap_cut_tokens_of_render hspelled hdistinct hplain)]
  have hcounts := forest.counts_callsFrom _ (markers.delimiters.map_token_place 0 forest.tokens) [] []
  rwa [List.append_nil, callsFrom, List.map_nil, List.append_nil] at hcounts

/-- Whatever resolving a forest that is written out returns is an expansion. -/
theorem mem_expansions_of_resolve {output : String} {tape last : Tape}
    (hresolve : markers.resolve (forest.render markers.delimiters) tape = .ok output last) :
    output ∈ forest.expansions := by
  have hcounts := map_count_calls_render hspelled hdistinct hplain
  cases hchosen : tape.source.chooseAll? forest.counts with
  | none =>
    rw [← hcounts] at hchosen
    obtain ⟨stuck, hstuck⟩ := markers.resolve_of_none _ hchosen
    cases hstuck.symm.trans hresolve
  | some chosen =>
    obtain ⟨indices, after⟩ := chosen
    have hindices := Source.forall₂_lt_of_chooseAll? forest.counts_pos hchosen
    rw [← hcounts] at hchosen
    rw [markers.resolve_of_some _ hchosen, outcome_render hspelled hdistinct hplain] at hresolve
    cases hresolve
    exact (forest.mem_expansions_iff _).mpr ⟨indices, hindices, rfl⟩

/-- Each expansion is returned for some stream, if all groups have a 64-bit number of alternatives. -/
theorem exists_resolve_of_mem_expansions (hcount : ∀ count ∈ forest.counts, count < UInt64.size)
    {output : String} (houtput : output ∈ forest.expansions) :
    ∃ (draw : Nat → UInt64) (last : Tape),
      markers.resolve (forest.render markers.delimiters) { source := { draw := draw } } =
        .ok output last := by
  obtain ⟨indices, hindices, rfl⟩ := (forest.mem_expansions_iff output).mp houtput
  obtain ⟨draw, after, hchosen⟩ := Source.exists_stream hindices hcount
  rw [← map_count_calls_render hspelled hdistinct hplain] at hchosen
  let tape : Tape := { source := { draw := draw } }
  have hresolve : markers.resolve (forest.render markers.delimiters) tape = _ :=
    markers.resolve_of_some _ hchosen
  rw [outcome_render hspelled hdistinct hplain] at hresolve
  exact ⟨draw, _, hresolve⟩

end

/-- The outputs of a forest that is written out are its expansions.

Nothing but expansions is returned, whatever the stream. Each is returned for some stream of 64-bit draws,
since no text that is held in memory has more alternatives than fit 64 bits. -/
theorem outputs_eq_expansions (hspelled : markers.delimiters.SpelledBy signs)
    (hdistinct : [signs.opening, signs.closing, signs.separator].Nodup)
    (hplain : forest.HasPlainText signs) :
    markers.checkPairing (forest.render markers.delimiters) = .ok () ∧
      markers.outputs (forest.render markers.delimiters) ⊆ forest.expansions ∧
      (byteLength (forest.render markers.delimiters).toList < UInt64.size →
        markers.outputs (forest.render markers.delimiters) = forest.expansions) := by
  have hsubset : markers.outputs (forest.render markers.delimiters) ⊆ forest.expansions := by
    rintro output ⟨draw, patience, last, hresolve⟩
    exact mem_expansions_of_resolve hspelled hdistinct hplain hresolve
  refine ⟨?_, hsubset, fun hsize => hsubset.antisymm fun output houtput => ?_⟩
  · rw [markers.checkPairing_eq_outcome _ [], outcome_render hspelled hdistinct hplain]
    rfl
  · have hcount : ∀ count ∈ forest.counts, count < UInt64.size := by
      intro count hmem
      have hle := forest.count_le markers.delimiters count hmem
      have hbytes := length_le_byteLength (forest.render markers.delimiters).toList
      rw [Forest.render, String.toList_ofList] at hbytes hsize
      omega
    obtain ⟨draw, last, hresolve⟩ :=
      exists_resolve_of_mem_expansions hspelled hdistinct hplain hcount houtput
    exact ⟨draw, UInt64.size, last, hresolve⟩

/-- Two runs of text side by side, one of them empty, an empty alternative and a group inside the other
one. -/
theorem outputs_eq_expansions_nested :
    Markers.default.checkPairing "a\x7b|\x7bb|c\x7d\x7d" = .ok () ∧
      Markers.default.outputs "a\x7b|\x7bb|c\x7d\x7d" = {"a", "ab", "ac"} := by
  let inner : Alternatives := .more (.text "b" .nil) (.last (.text "c" .nil))
  let forest : Forest := .text "a" (.text "" (.group (.more .nil (.last (.group inner .nil))) .nil))
  have hrender : forest.render Markers.default.delimiters = "a\x7b|\x7bb|c\x7d\x7d" := by decide +kernel
  have hplain : forest.HasPlainText ⟨'\x7b', '\x7d', '|'⟩ := by
    intro chunk hmem
    simp only [forest, inner, Forest.tokens, Alternatives.tokens, List.mem_cons, List.mem_append,
      Token.text.injEq, reduceCtorEq, List.not_mem_nil, false_or, or_false] at hmem
    rcases hmem with rfl | rfl | rfl | rfl <;> simp [Signs.IsPlain]
  have hexpansions : forest.expansions = {"a", "ab", "ac"} := by
    ext output
    have hmem : output ∈ forest.expansions ↔ "a" = output ∨ "ac" = output ∨ "ab" = output := by
      simp [forest, inner, Forest.expansions, Alternatives.expansions]
    rw [hmem]
    constructor <;> rintro (rfl | rfl | rfl) <;> simp
  obtain ⟨hsound, -, heq⟩ := outputs_eq_expansions spelledBy_default (by decide) hplain
  rw [hrender] at hsound heq
  exact ⟨hsound, (heq (by decide)).trans hexpansions⟩

end Markers

end Spintax
