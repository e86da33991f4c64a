import Mathlib.Data.List.GetD
import Spintax.Proofs.Signs

/-!
# Rewriting one group at a time

A text whose markers are one character each can also be resolved by a loop that rewrites the text as
a whole. As long as there is a closing sign, it looks at what stands before the first one, takes the
segment behind the last opening sign there, splits it into pieces, chooses one of them, and puts it in
the place of the first occurrence of the segment with its signs.

Resolving in one pass comes to the same. At each moment the draft, written out with the signs of its
open groups, and the characters that are not read yet form the text that the loop has reached. When
the next character is a closing sign, it is the first one of this text, and the segment before it is
that of the innermost open group. No occurrence of a group can end before the first closing sign, so
the first occurrence is this one.
-/

namespace Spintax

/-- The characters with the first occurrence of a pattern, one that is not empty, replaced. -/
def Text.replaceFirst (pattern replacement : List Char) : List Char → List Char
  | [] => []
  | c :: cs =>
    if pattern.isPrefixOf (c :: cs) then replacement ++ (c :: cs).drop pattern.length
    else c :: replaceFirst pattern replacement cs

/-- A pattern at the beginning is replaced there. -/
theorem Text.replaceFirst_append_self {pattern : List Char} (hne : pattern ≠ [])
    (replacement after : List Char) :
    replaceFirst pattern replacement (pattern ++ after) = replacement ++ after := by
  obtain ⟨c, cs, rfl⟩ := List.exists_cons_of_ne_nil hne
  have hprefix : (c :: cs).isPrefixOf (c :: (cs ++ after)) = true :=
    List.isPrefixOf_iff_prefix.mpr (List.prefix_append (c :: cs) after)
  rw [List.cons_append, replaceFirst, if_pos hprefix, ← List.cons_append, List.drop_left]

/-- A pattern that ends in a sign is replaced where this sign stands for the first time, if the
pattern stands there. -/
theorem Text.replaceFirst_append {sign : Char} {stem before : List Char}
    (hbefore : sign ∉ before) (hstem : sign ∉ stem) (replacement after : List Char) :
    replaceFirst (stem ++ [sign]) replacement (before ++ (stem ++ [sign] ++ after)) =
      before ++ (replacement ++ after) := by
  induction before with
  | nil => exact replaceFirst_append_self (List.concat_ne_nil sign stem) replacement after
  | cons c before ih =>
    -- An occurrence here would end before the sign does.
    have hprefix : ¬ stem ++ [sign] <+: c :: (before ++ (stem ++ [sign] ++ after)) := by
      intro hoccurs
      have hwhole : c :: (before ++ stem) <+: c :: (before ++ (stem ++ [sign] ++ after)) :=
        ⟨sign :: after, by simp⟩
      have hwithin : stem ++ [sign] <+: c :: (before ++ stem) :=
        List.prefix_of_prefix_length_le hoccurs hwhole (by simp)
      have hmem : sign ∈ c :: (before ++ stem) := hwithin.subset (by simp)
      rw [← List.cons_append, List.mem_append] at hmem
      exact hmem.elim hbefore hstem
    rw [List.cons_append, replaceFirst, if_neg (mt List.isPrefixOf_iff_prefix.mp hprefix),
      ih (List.not_mem_of_not_mem_cons hbefore), List.cons_append]

namespace Signs

variable (signs : Signs)

/-- What stands behind the last opening sign before the first closing sign. -/
def innermost (text : List Char) : List Char :=
  ((text.takeWhile (· ≠ signs.closing)).splitOn signs.opening).getLastD []

/-- A segment with the signs that make it a group. -/
def enclose (segment : List Char) : List Char :=
  signs.opening :: segment ++ [signs.closing]

/-- Choose one of the pieces of the innermost group, and replace the first occurrence of the group by
it. -/
def rewriteOnce (text : List Char) : Sampling (List Char) := do
  let segment := signs.innermost text
  let pieces := segment.splitOn signs.separator
  let index ← Sampling.choose pieces.length
  pure (Text.replaceFirst (signs.enclose segment) (pieces.getD index []) text)

/-- Rewrite the text as long as there is a closing sign in it. There is no result if one is left
after `limit` rounds. -/
def rewrite : Nat → List Char → Sampling (Option (List Char))
  | 0, text => pure (if signs.closing ∈ text then none else some text)
  | limit + 1, text =>
    if signs.closing ∈ text then do
      let next ← signs.rewriteOnce text
      rewrite limit next
    else
      pure (some text)

variable {signs}

/-- A text without closing signs is left as it is. -/
theorem rewrite_of_not_mem {text : List Char} (hclosing : signs.closing ∉ text) (limit : Nat) :
    signs.rewrite limit text = pure (some text) := by
  cases limit with
  | zero => rw [rewrite, if_neg hclosing]
  | succ limit => rw [rewrite, if_neg hclosing]

/-- The segment before the first closing sign, if there is an opening sign. -/
theorem innermost_append {before segment : List Char} (hbefore : signs.closing ∉ before)
    (hclosing : signs.closing ∉ signs.opening :: segment) (hopening : signs.opening ∉ segment)
    (after : List Char) :
    signs.innermost (before ++ (signs.enclose segment ++ after)) = segment := by
  have hnone : ∀ c ∈ before ++ signs.opening :: segment, decide (c ≠ signs.closing) = true := by
    intro c hmem
    rw [decide_eq_true_eq]
    rintro rfl
    exact (List.mem_append.mp hmem).elim hbefore hclosing
  have hprefix : (before ++ (signs.enclose segment ++ after)).takeWhile (· ≠ signs.closing) =
      before ++ signs.opening :: segment := by
    have heq : before ++ (signs.enclose segment ++ after) =
        (before ++ signs.opening :: segment) ++ signs.closing :: after := by simp [enclose]
    rw [heq, List.takeWhile_append_of_pos hnone, List.takeWhile_cons_of_neg (by simp),
      List.append_nil]
  rw [innermost, hprefix, List.splitOn_append_cons_self, List.splitOn_eq_singleton hopening]
  simp

/-- A round replaces the segment before the first closing sign by one of its pieces. -/
theorem rewriteOnce_append {before segment : List Char} (hbefore : signs.closing ∉ before)
    (hclosing : signs.closing ∉ signs.opening :: segment) (hopening : signs.opening ∉ segment)
    (after : List Char) :
    signs.rewriteOnce (before ++ (signs.enclose segment ++ after)) = (do
      let index ← Sampling.choose (segment.splitOn signs.separator).length
      pure (before ++ ((segment.splitOn signs.separator).getD index [] ++ after))) := by
  rw [rewriteOnce]
  simp only [innermost_append hbefore hclosing hopening]
  congr
  funext index
  rw [enclose, Text.replaceFirst_append hbefore hclosing]

end Signs

/-- A row with separators between its members ends in the last member. -/
theorem intercalate_concat (sign : Char) (row : List (List Char)) (last : List Char) :
    [sign].intercalate (row ++ [last]) = row.flatMap (· ++ [sign]) ++ last := by
  induction row with
  | nil => simp
  | cons first rest ih =>
    rw [List.cons_append, List.intercalate_cons_of_ne_nil (List.concat_ne_nil last rest), ih,
      List.flatMap_cons, List.append_assoc, List.append_assoc, List.append_assoc]

namespace PendingGroup

variable (signs : Signs) (group : PendingGroup)

/-- The alternatives of a group with separators between them. -/
def segment : List Char :=
  [signs.separator].intercalate (group.alternatives.map String.toList)

/-- The alternatives of a group are plain, and there is more than one only if the separator is not
taken for another mark. -/
structure Fits : Prop where
  plain : ∀ alternative ∈ group.alternatives, ∀ c ∈ alternative.toList, signs.IsPlain c
  separated : group.finished ≠ [] →
    signs.separator ≠ signs.opening ∧ signs.separator ≠ signs.closing

variable {signs group}

/-- All alternatives have a property when the current one and the finished ones have it. -/
theorem forall_mem_alternatives {p : String → Prop} :
    (∀ alternative ∈ group.alternatives, p alternative) ↔
      p group.current ∧ ∀ alternative ∈ group.finished, p alternative := by
  simp [alternatives, or_imp, forall_and, and_comm]

/-- What has been read of a group ends in the alternative in progress. -/
theorem segment_eq : group.segment signs =
    group.finished.reverse.flatMap (fun alternative => alternative.toList ++ [signs.separator]) ++
      group.current.toList := by
  rw [segment, alternatives, List.reverse_cons, List.map_append, List.map_singleton,
    intercalate_concat, List.flatMap_map]

/-- A segment is made up of plain characters and separators. -/
theorem Fits.ne_of_mem_segment (hfits : group.Fits signs) {c : Char}
    (hmem : c ∈ group.segment signs) : c ≠ signs.opening ∧ c ≠ signs.closing := by
  have hplain : ∀ alternative ∈ group.alternatives, c ∈ alternative.toList →
      c ≠ signs.opening ∧ c ≠ signs.closing := fun alternative halternative hmem =>
    let ⟨hopening, hclosing, _⟩ := hfits.plain alternative halternative c hmem
    ⟨hopening, hclosing⟩
  rw [segment_eq, List.mem_append, List.mem_flatMap] at hmem
  rcases hmem with ⟨alternative, hfinished, hmem⟩ | hmem
  · rcases List.mem_append.mp hmem with hmem | hmem
    · exact hplain alternative (by simp_all [alternatives]) hmem
    · obtain rfl := List.mem_singleton.mp hmem
      exact hfits.separated (by rintro hnil; simp [hnil] at hfinished)
  · exact hplain group.current (by simp [alternatives]) hmem

/-- What is chosen from a group is plain. -/
theorem Fits.plain_getD (hfits : group.Fits signs) (index : Nat) :
    ∀ c ∈ (group.alternatives.getD index "").toList, signs.IsPlain c := by
  rw [List.getD_eq_getElem?_getD]
  cases hchosen : group.alternatives[index]? with
  | none => simp
  | some alternative => exact hfits.plain alternative (List.mem_of_getElem? hchosen)

/-- Splitting the segment of a group gives its alternatives back. -/
theorem Fits.splitOn_segment (hfits : group.Fits signs) :
    (group.segment signs).splitOn signs.separator = group.alternatives.map String.toList := by
  apply List.splitOn_intercalate
  · intro cs hmem hseparator
    obtain ⟨alternative, halternative, rfl⟩ := List.mem_map.mp hmem
    exact (hfits.plain alternative halternative _ hseparator).2.2 rfl
  · simp [alternatives]

end PendingGroup

namespace Draft

variable (signs : Signs) (draft : Draft)

/-- The characters of a draft with the signs of its open groups: the output, and for each open group,
outermost first, the opening sign and what has been read of the group. -/
def spelling : List Char :=
  draft.output.toList ++
    draft.groups.reverse.flatMap fun group => signs.opening :: group.segment signs

/-- No closing sign stands in the output, and the open groups have plain alternatives. -/
structure Fits : Prop where
  output : signs.closing ∉ draft.output.toList
  groups : ∀ group ∈ draft.groups, group.Fits signs

variable {signs draft}

/-- The innermost open group is spelled last. -/
theorem spelling_cons (group : PendingGroup) (outer : List PendingGroup) (output : String) :
    spelling signs ⟨group :: outer, output⟩ =
      spelling signs ⟨outer, output⟩ ++ signs.opening :: group.segment signs := by
  simp [spelling]

/-- What is written is spelled at the end. -/
theorem spelling_write (text : String) :
    (draft.write text).spelling signs = draft.spelling signs ++ text.toList := by
  obtain ⟨_ | ⟨group, outer⟩, output⟩ := draft
  · simp [spelling, write]
  · rw [write, spelling_cons, spelling_cons, PendingGroup.segment_eq, PendingGroup.segment_eq]
    simp

/-- Beginning a group spells an opening sign. -/
theorem spelling_beginGroup (start : Nat) :
    (draft.beginGroup start).spelling signs = draft.spelling signs ++ [signs.opening] := by
  rw [beginGroup, spelling_cons, PendingGroup.segment_eq]
  simp

/-- Separating spells a separator. -/
theorem spelling_separate {separator : String} (hseparator : separator.toList = [signs.separator]) :
    (draft.separate separator).spelling signs = draft.spelling signs ++ [signs.separator] := by
  obtain ⟨_ | ⟨group, outer⟩, output⟩ := draft
  · simp [spelling, separate, hseparator]
  · rw [separate, spelling_cons, spelling_cons, PendingGroup.segment_eq, PendingGroup.segment_eq]
    simp

namespace Fits

/-- Writing plain text keeps a draft fitting. -/
theorem write (hfits : draft.Fits signs) {text : String}
    (hplain : ∀ c ∈ text.toList, signs.IsPlain c) : (draft.write text).Fits signs := by
  obtain ⟨_ | ⟨group, outer⟩, output⟩ := draft
  · refine ⟨?_, by simp [Draft.write]⟩
    simp only [Draft.write, String.toList_append, List.mem_append, not_or]
    exact ⟨hfits.output, fun hmem => (hplain _ hmem).2.1 rfl⟩
  · obtain ⟨hgroup, houter⟩ := List.forall_mem_cons.mp hfits.groups
    refine ⟨hfits.output, List.forall_mem_cons.mpr ⟨⟨?_, hgroup.separated⟩, houter⟩⟩
    obtain ⟨hcurrent, hfinished⟩ := PendingGroup.forall_mem_alternatives.mp hgroup.plain
    refine PendingGroup.forall_mem_alternatives.mpr ⟨fun c hmem => ?_, hfinished⟩
    rw [String.toList_append, List.mem_append] at hmem
    exact hmem.elim (hcurrent c) (hplain c)

/-- Opening a group keeps a draft fitting. -/
theorem beginGroup (hfits : draft.Fits signs) (start : Nat) :
    (draft.beginGroup start).Fits signs := by
  refine ⟨hfits.output, List.forall_mem_cons.mpr ⟨⟨?_, ?_⟩, hfits.groups⟩⟩
  · simp [PendingGroup.alternatives]
  · simp

/-- A separator keeps a draft fitting. -/
theorem separate (hfits : draft.Fits signs) {separator : String}
    (hseparator : separator.toList = [signs.separator])
    (hopening : signs.separator ≠ signs.opening) (hclosing : signs.separator ≠ signs.closing) :
    (draft.separate separator).Fits signs := by
  obtain ⟨_ | ⟨group, outer⟩, output⟩ := draft
  · refine ⟨?_, by simp [Draft.separate]⟩
    simp only [Draft.separate, String.toList_append, List.mem_append, not_or, hseparator,
      List.mem_singleton]
    exact ⟨hfits.output, hclosing.symm⟩
  · obtain ⟨hgroup, houter⟩ := List.forall_mem_cons.mp hfits.groups
    refine ⟨hfits.output, List.forall_mem_cons.mpr ⟨⟨?_, fun _ => ⟨hopening, hclosing⟩⟩, houter⟩⟩
    exact PendingGroup.forall_mem_alternatives.mpr ⟨by simp, List.forall_mem_cons.mpr
      (PendingGroup.forall_mem_alternatives.mp hgroup.plain)⟩

/-- Closing a group keeps a draft fitting. -/
theorem endGroup {group : PendingGroup} {outer : List PendingGroup} {output : String}
    (hfits : Draft.Fits signs ⟨group :: outer, output⟩) (index : Nat) :
    (Draft.write ⟨outer, output⟩ (group.alternatives.getD index "")).Fits signs := by
  obtain ⟨hgroup, houter⟩ := List.forall_mem_cons.mp hfits.groups
  have hrest : Draft.Fits signs ⟨outer, output⟩ := ⟨hfits.output, houter⟩
  exact hrest.write (hgroup.plain_getD index)

/-- The closing sign does not stand in the spelling of a fitting draft, unless it opens groups. -/
theorem closing_not_mem_spelling (hfits : draft.Fits signs) (hne : signs.closing ≠ signs.opening) :
    signs.closing ∉ draft.spelling signs := by
  intro hmem
  rcases List.mem_append.mp hmem with hmem | hmem
  · exact hfits.output hmem
  · obtain ⟨group, hgroup, hmem⟩ := List.mem_flatMap.mp hmem
    rcases List.mem_cons.mp hmem with heq | hmem
    · exact hne heq
    · exact ((hfits.groups group (List.mem_reverse.mp hgroup)).ne_of_mem_segment hmem).2 rfl

end Fits

/-- When a closing sign is ahead, a round of rewriting closes the innermost group. -/
theorem rewriteOnce_spelling {group : PendingGroup} {outer : List PendingGroup} {output : String}
    (hfits : Draft.Fits signs ⟨group :: outer, output⟩) (hne : signs.closing ≠ signs.opening)
    (cs : List Char) :
    signs.rewriteOnce (spelling signs ⟨group :: outer, output⟩ ++ signs.closing :: cs) = (do
      let index ← Sampling.choose group.alternatives.length
      pure (spelling signs (write ⟨outer, output⟩ (group.alternatives.getD index "")) ++ cs)) := by
  obtain ⟨hgroup, houter⟩ := List.forall_mem_cons.mp hfits.groups
  have hrest : Draft.Fits signs ⟨outer, output⟩ := ⟨hfits.output, houter⟩
  have hopening : signs.opening ∉ group.segment signs :=
    fun hmem => (hgroup.ne_of_mem_segment hmem).1 rfl
  have hclosing : signs.closing ∉ signs.opening :: group.segment signs := by
    rw [List.mem_cons, not_or]
    exact ⟨hne, fun hmem => (hgroup.ne_of_mem_segment hmem).2 rfl⟩
  have hspelling : spelling signs ⟨group :: outer, output⟩ ++ signs.closing :: cs =
      spelling signs ⟨outer, output⟩ ++ (signs.enclose (group.segment signs) ++ cs) := by
    simp [spelling_cons, Signs.enclose]
  rw [hspelling, Signs.rewriteOnce_append (hrest.closing_not_mem_spelling hne) hclosing hopening,
    hgroup.splitOn_segment, List.length_map]
  congr
  funext index
  have hpiece : (group.alternatives.map String.toList).getD index [] =
      (group.alternatives.getD index "").toList := by
    rw [← String.toList_empty, List.getD_map]
  rw [spelling_write, hpiece, List.append_assoc]

/-- Make the calls for the lexemes ahead, but no more than `limit` of them, and end in the outcome if
that was all of them. -/
def finishWithin (separator : String) (limit : Nat) (draft : Draft) (lexemes : List Lexeme) :
    Sampling (Option (List Char)) :=
  let counts := (callsFrom draft.pending lexemes).map Call.count
  do
    let indices ← Sampling.chooseAll (counts.take limit)
    pure (if counts.length ≤ limit then
      (draft.outcome separator lexemes indices).toOption.map String.toList else none)

section

variable (separator : String) (limit : Nat) (draft : Draft) (start stop : Nat) (rest : List Lexeme)

/-- Where no token is left and no group is open, the output is finished. -/
theorem finishWithin_nil (output : String) :
    finishWithin separator limit ⟨[], output⟩ [] = pure (some output.toList) := by
  rw [finishWithin, callsFrom, List.map_nil, List.take_nil]
  rfl

/-- A chunk of text is written. -/
theorem finishWithin_text (chunk : String) :
    draft.finishWithin separator limit (⟨.text chunk, start, stop⟩ :: rest) =
      (draft.write chunk).finishWithin separator limit rest := by
  rw [finishWithin, finishWithin, callsFrom_text, pending_write]
  rfl

/-- An opening marker begins a group. -/
theorem finishWithin_opening :
    draft.finishWithin separator limit (⟨.mark .opening, start, stop⟩ :: rest) =
      (draft.beginGroup start).finishWithin separator limit rest := by
  rw [finishWithin, finishWithin, callsFrom_opening, pending_beginGroup]
  rfl

/-- A separator separates. -/
theorem finishWithin_separator :
    draft.finishWithin separator limit (⟨.mark .separator, start, stop⟩ :: rest) =
      (draft.separate separator).finishWithin separator limit rest := by
  rw [finishWithin, finishWithin, callsFrom_separate separator]
  rfl

variable (group : PendingGroup) (outer : List PendingGroup) (output : String)

/-- Without rounds left, a closing marker stops the run. -/
theorem finishWithin_closing_zero :
    finishWithin separator 0 ⟨group :: outer, output⟩ (⟨.mark .closing, start, stop⟩ :: rest) =
      pure none := rfl

/-- A closing marker takes one round and writes the chosen alternative. -/
theorem finishWithin_closing_succ :
    finishWithin separator (limit + 1) ⟨group :: outer, output⟩
        (⟨.mark .closing, start, stop⟩ :: rest) = (do
      let index ← Sampling.choose group.alternatives.length
      (write ⟨outer, output⟩ (group.alternatives.getD index "")).finishWithin separator limit
        rest) := by
  rw [finishWithin, pending_cons, callsFrom_closing, List.map_cons]
  simp only [finishWithin, List.take_succ_cons, Sampling.chooseAll_cons, bind_assoc, pure_bind,
    pending_write, List.length_cons, Nat.add_le_add_iff_right]
  rfl

end

/-- Rewriting what a draft and the characters ahead spell makes the calls that are still to come, as
far as the limit allows, and ends in the outcome if the limit allows them all. -/
theorem rewrite_spelling (delimiters : Delimiters) {separator : String}
    (hseparator : separator.toList = [signs.separator]) (cs : List Char) (draft : Draft)
    (offset limit : Nat) (hfits : draft.Fits signs)
    (hsound : ∀ indices, ∃ output, draft.outcome separator
      (delimiters.place offset (cs.map signs.tokenOf)) indices = .ok output) :
    signs.rewrite limit (draft.spelling signs ++ cs) =
      draft.finishWithin separator limit (delimiters.place offset (cs.map signs.tokenOf)) := by
  induction cs generalizing draft offset limit with
  | nil =>
    obtain ⟨groups, output⟩ := draft
    obtain ⟨result, hresult⟩ := hsound []
    obtain rfl : groups = [] := by
      rw [List.map_nil, Delimiters.place, outcome] at hresult
      cases hlast : groups.getLast? with
      | none => exact List.getLast?_eq_none_iff.mp hlast
      | some group => simp [hlast] at hresult
    have hspelling : spelling signs ⟨[], output⟩ ++ [] = output.toList := by simp [spelling]
    rw [hspelling, Signs.rewrite_of_not_mem hfits.output, List.map_nil, Delimiters.place,
      finishWithin_nil]
  | cons c cs ih =>
    rw [List.map_cons] at hsound ⊢
    rcases signs.char_cases c with rfl | ⟨rfl, hne⟩ | ⟨rfl, hopening, hclosing⟩ | hplain
    · rw [Signs.tokenOf_opening] at hsound ⊢
      rw [Delimiters.place, finishWithin_opening, ← ih _ _ _ (hfits.beginGroup offset) hsound,
        spelling_beginGroup, List.append_assoc, List.singleton_append]
    · rw [Signs.tokenOf_closing hne] at hsound ⊢
      obtain ⟨_ | ⟨group, outer⟩, output⟩ := draft
      · -- A closing marker without an open group is a fault.
        obtain ⟨result, hresult⟩ := hsound []
        cases hresult
      · -- The first closing sign is the next character, so the loop is at the innermost open group.
        have hmem : signs.closing ∈
            spelling signs ⟨group :: outer, output⟩ ++ signs.closing :: cs := by simp
        rw [Delimiters.place]
        cases limit with
        | zero => rw [Signs.rewrite, if_pos hmem, finishWithin_closing_zero]
        | succ limit =>
          rw [Signs.rewrite, if_pos hmem, rewriteOnce_spelling hfits hne, finishWithin_closing_succ,
            bind_assoc]
          congr
          funext index
          rw [pure_bind]
          exact ih _ _ _ (hfits.endGroup index) fun indices => hsound (index :: indices)
    · rw [Signs.tokenOf_separator hopening hclosing] at hsound ⊢
      rw [Delimiters.place, finishWithin_separator,
        ← ih _ _ _ (hfits.separate hseparator hopening hclosing) hsound,
        spelling_separate hseparator, List.append_assoc, List.singleton_append]
    · rw [Signs.tokenOf_of_isPlain hplain] at hsound ⊢
      rw [Delimiters.place, finishWithin_text, ← ih _ _ _ (hfits.write (by simpa using hplain)) hsound,
        spelling_write, String.toList_singleton, List.append_assoc, List.singleton_append]

end Draft

namespace Markers

variable {markers : Markers} {signs : Signs} {text : String}

/-- Rewriting a text that passes the structure check makes the first calls that the limit allows, and
ends in the outcome if the limit allows them all. -/
theorem rewrite_eq_chooseAll (hspelled : markers.delimiters.SpelledBy signs)
    (hsound : markers.checkPairing text = .ok ()) (limit : Nat) :
    let counts := (markers.calls text).map Call.count
    signs.rewrite limit text.toList = (do
      let indices ← Sampling.chooseAll (counts.take limit)
      pure (if counts.length ≤ limit then
        (markers.outcome text indices).toOption.map String.toList else none)) := by
  have hcut := signs.flatMap_cut_tokenOf text.toList
  have houtcome := outcome_eq_of_cut hspelled hcut
  have hoks := exists_outcome_eq_ok hsound
  simp only [houtcome] at hoks
  have hfits : Draft.Fits signs {} := ⟨by simp, by simp⟩
  have hspelling : Draft.spelling signs {} ++ text.toList = text.toList := by simp [Draft.spelling]
  have hrewrite := Draft.rewrite_spelling markers.delimiters (hspelled .separator) text.toList {} 0
    limit hfits hoks
  rw [hspelling] at hrewrite
  simp only [hrewrite, houtcome, calls_eq_of_cut hspelled hcut]
  rfl

/-- Resolving a text that passes the structure check agrees with rewriting it.

Both make the same calls and give the same output for the same indices. Rewriting takes as many rounds as
there are closing signs, no fewer. -/
theorem resolve_agrees_with_rewrite (hspelled : markers.delimiters.SpelledBy signs)
    (hsound : markers.checkPairing text = .ok ()) :
    let counts := (markers.calls text).map Call.count
    counts.length = text.toList.count signs.closing ∧
    ∃ output : List Nat → String,
      (∀ indices, markers.outcome text indices = .ok (output indices)) ∧
      markers.resolve text = (do
        let indices ← Sampling.makeAll (markers.calls text)
        pure (output indices)) ∧
      (∀ limit, signs.rewrite limit text.toList = (do
        let indices ← Sampling.chooseAll (counts.take limit)
        pure (if counts.length ≤ limit then some (output indices).toList else none))) ∧
      ∀ (tape : Tape) (limit : Nat), text.toList.count signs.closing ≤ limit →
        match tape.source.chooseAll? counts with
        | some (indices, after) =>
          markers.resolve text tape = .ok (output indices)
              ⟨after, (List.zipWith Call.report (markers.calls text) indices).reverse ++ tape.events⟩ ∧
            signs.rewrite limit text.toList tape =
              .ok (some (output indices).toList) ⟨after, tape.events⟩
        | none =>
          (∃ stuck, markers.resolve text tape = .error .stalled stuck) ∧
            ∃ stuck, signs.rewrite limit text.toList tape = .error .stalled stuck := by
  have hlength : ((markers.calls text).map Call.count).length = text.toList.count signs.closing := by
    rw [List.length_map, length_calls hsound, count_closing_tokens hspelled hsound]
  choose output houtput using exists_outcome_eq_ok hsound
  have hresolve : markers.resolve text = (do
      let indices ← Sampling.makeAll (markers.calls text)
      pure (output indices)) := by
    simp only [markers.resolve_eq_makeAll, houtput]
    rfl
  have hrewrite := rewrite_eq_chooseAll hspelled hsound
  simp only [houtput] at hrewrite
  refine ⟨hlength, output, houtput, hresolve, hrewrite, fun tape limit hlimit => ?_⟩
  rw [hrewrite, List.take_of_length_le (hlength ▸ hlimit)]
  cases hchosen : tape.source.chooseAll? ((markers.calls text).map Call.count) with
  | none =>
    obtain ⟨stuck, hstuck⟩ := Sampling.chooseAll_of_none hchosen
    exact ⟨markers.resolve_of_none text hchosen, stuck, Sampling.bind_of_error hstuck⟩
  | some chosen =>
    obtain ⟨indices, after⟩ := chosen
    refine ⟨?_, ?_⟩
    · rw [markers.resolve_of_some text hchosen, houtput]
      rfl
    · rw [Sampling.bind_of_ok (Sampling.chooseAll_of_some hchosen), if_pos (hlength ▸ hlimit)]
      rfl

/-- The same group twice: the first round replaces the first occurrence, and what stands there now is
not touched by the second. -/
theorem resolve_agrees_with_rewrite_twice :
    Markers.default.delimiters.SpelledBy ⟨'\x7b', '\x7d', '|'⟩ ∧
      Markers.default.checkPairing "\x7ba|b\x7d\x7ba|b\x7d" = .ok () ∧
      ∃ (after : Source) (events : List Event),
        Markers.default.resolve "\x7ba|b\x7d\x7ba|b\x7d"
            { source := .ofList [.ofNat (1 <<< 63), .ofNat 0] } = .ok "ba" ⟨after, events⟩ ∧
          Signs.rewrite ⟨'\x7b', '\x7d', '|'⟩ 2 "\x7ba|b\x7d\x7ba|b\x7d".toList
            { source := .ofList [.ofNat (1 <<< 63), .ofNat 0] } = .ok (some ['b', 'a']) ⟨after, []⟩ := by
  have hsound : Markers.default.checkPairing "\x7ba|b\x7d\x7ba|b\x7d" = .ok () := by decide +kernel
  have hcalls : (Markers.default.calls "\x7ba|b\x7d\x7ba|b\x7d").map Call.count = [2, 2] := by decide +kernel
  have houtcome : Markers.default.outcome "\x7ba|b\x7d\x7ba|b\x7d" [1, 0] = .ok "ba" := by decide +kernel
  have hchosen : (Source.ofList [.ofNat (1 <<< 63), .ofNat 0]).chooseAll? [2, 2] =
      some ([1, 0], { Source.ofList [.ofNat (1 <<< 63), .ofNat 0] with position := 2 }) :=
    Source.chooseAll?_ofList (.cons rfl (.cons rfl .nil))
  obtain ⟨hlength, output, houtput, -, -, hrun⟩ := resolve_agrees_with_rewrite spelledBy_default hsound
  have hvalue : output [1, 0] = "ba" := Except.ok.inj ((houtput [1, 0]).symm.trans houtcome)
  refine ⟨spelledBy_default, hsound, ?_⟩
  generalize Source.ofList [.ofNat (1 <<< 63), .ofNat 0] = source at hchosen ⊢
  have hlast := hrun { source := source } 2 (by rw [← hlength, hcalls]; decide)
  simp only [hcalls, hchosen, hvalue] at hlast
  exact ⟨_, _, hlast⟩

end Markers

end Spintax
