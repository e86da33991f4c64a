import Mathlib.Data.List.Flatten
import Spintax.Proofs.Evaluation
import Spintax.Proofs.Occurrences

/-!
# What resolving leaves of a text

The output of a text is put together from some of its tokens, in their order: from runs of text, and
from separators that stand outside every group. No opening or closing marker is among them, and no
run of text holds one. But the runs of an output come from different places of the text, and where
two of them meet a marker can arise that stands in neither. A marker of one character has no room for
this: it is left in an output only if the separator contains it.

A text in which no opening and no closing marker occurs is left as it is, and without a draw.
-/

namespace Spintax

/-- A token that resolving can leave: a run of text or a separator. -/
def Token.IsLiteral : Token → Prop
  | .text _ => True
  | .mark kind => kind = .separator

namespace Delimiters

/-- A text is what some of the tokens stand for, in their order, and all of these are literal. -/
def Leaves (delimiters : Delimiters) (tokens : List Token) (value : String) : Prop :=
  ∃ kept : List Token, kept.Sublist tokens ∧ (∀ token ∈ kept, token.IsLiteral) ∧
    value.toList = kept.flatMap delimiters.written

variable {delimiters : Delimiters} {tokens others : List Token} {value : String}

namespace Leaves

/-- Nothing need be left. -/
theorem empty : delimiters.Leaves tokens "" :=
  ⟨[], List.nil_sublist _, by simp, by simp⟩

/-- A literal token can be left as it is. -/
theorem single {token : Token} (hliteral : token.IsLiteral)
    (hvalue : value.toList = delimiters.written token) : delimiters.Leaves [token] value := by
  refine ⟨[token], List.Sublist.refl _, by simpa using hliteral, ?_⟩
  rw [List.flatMap_singleton, hvalue]

/-- What is left of two rows of tokens is left of them side by side. -/
theorem append {left right : String} (hleft : delimiters.Leaves tokens left)
    (hright : delimiters.Leaves others right) :
    delimiters.Leaves (tokens ++ others) (left ++ right) := by
  obtain ⟨first, hfirst, hliteral, heq⟩ := hleft
  obtain ⟨second, hsecond, hliteral', heq'⟩ := hright
  refine ⟨first ++ second, hfirst.append hsecond, ?_, ?_⟩
  · exact List.forall_mem_append.mpr ⟨hliteral, hliteral'⟩
  · rw [String.toList_append, List.flatMap_append, heq, heq']

/-- More tokens can leave what fewer can. -/
theorem mono (hleaves : delimiters.Leaves tokens value) (hsublist : tokens.Sublist others) :
    delimiters.Leaves others value := by
  obtain ⟨kept, hkept, hrest⟩ := hleaves
  exact ⟨kept, hkept.trans hsublist, hrest⟩

/-- If each of several values can be left, so can the one at an index, or nothing. -/
theorem getD {values : List String} (hvalues : ∀ value ∈ values, delimiters.Leaves tokens value)
    (index : Nat) : delimiters.Leaves tokens (values.getD index "") := by
  rw [List.getD_eq_getElem?_getD]
  cases hchosen : values[index]? with
  | none => exact empty
  | some value => exact hvalues value (List.mem_of_getElem? hchosen)

/-- A group leaves what its alternatives leave, and what stands behind it leaves the rest. -/
theorem group {chosen rest : String} {inner : List Token} (hchosen : delimiters.Leaves inner chosen)
    (hrest : delimiters.Leaves others rest) :
    delimiters.Leaves (.mark .opening :: (inner ++ .mark .closing :: others)) (chosen ++ rest) := by
  apply (hchosen.append hrest).mono
  apply List.Sublist.cons
  exact (List.Sublist.refl inner).append (List.sublist_cons_self _ others)

/-- What is left has no characters of its own. -/
theorem sublist (hleaves : delimiters.Leaves tokens value) :
    value.toList.Sublist (tokens.flatMap delimiters.written) := by
  obtain ⟨kept, hkept, -, heq⟩ := hleaves
  rw [heq]
  exact hkept.flatMap delimiters.written

end Leaves

end Delimiters

section

variable (delimiters : Delimiters)

mutual

/-- The value of a forest is left of its tokens. -/
theorem Forest.leaves_evaluate : (forest : Forest) → (indices : List Nat) →
    delimiters.Leaves forest.tokens (forest.evaluate indices).1
  | .nil, indices => .empty
  | .text chunk rest, indices => by
    have hchunk : delimiters.Leaves [.text chunk] chunk := .single trivial rfl
    exact hchunk.append (rest.leaves_evaluate indices)
  | .group alternatives rest, indices => by
    have hvalues := alternatives.leaves_evaluate indices
    have hrest := rest.leaves_evaluate (alternatives.evaluate indices).2.tail
    exact (Delimiters.Leaves.getD hvalues _).group hrest

/-- The values of alternatives are left of their tokens. -/
theorem Alternatives.leaves_evaluate : (alternatives : Alternatives) → (indices : List Nat) →
    ∀ value ∈ (alternatives.evaluate indices).1, delimiters.Leaves alternatives.tokens value
  | .last forest, indices => by
    intro value hmem
    obtain rfl := List.mem_singleton.mp hmem
    exact forest.leaves_evaluate indices
  | .more forest others, indices => by
    intro value hmem
    rcases List.mem_cons.mp hmem with rfl | hmem
    · exact (forest.leaves_evaluate indices).mono (List.sublist_append_left _ _)
    · have hvalue := others.leaves_evaluate (forest.evaluate indices).2 value hmem
      apply hvalue.mono
      exact (List.sublist_cons_self _ _).trans (List.sublist_append_right _ _)

end

/-- The value of an outline is left of its tokens. -/
theorem Outline.leaves_evaluate {separator : String}
    (hseparator : separator.toList = delimiters.separator) (outline : Outline) (indices : List Nat) :
    delimiters.Leaves outline.tokens (outline.evaluate separator indices) := by
  induction outline generalizing indices with
  | nil => exact .empty
  | text chunk rest ih =>
    have hchunk : delimiters.Leaves [.text chunk] chunk := .single trivial rfl
    exact hchunk.append (ih indices)
  | separator rest ih =>
    have hmark : delimiters.Leaves [.mark .separator] separator := .single rfl hseparator
    exact hmark.append (ih indices)
  | group alternatives rest ih =>
    have hvalues := alternatives.leaves_evaluate delimiters indices
    exact (Delimiters.Leaves.getD hvalues _).group (ih _)

end

/-- Taking in literal tokens outside every group writes what they stand for. -/
theorem Draft.foldlM_step_literal (delimiters : Delimiters) {separator : String}
    (hseparator : separator.toList = delimiters.separator) {lexemes : List Lexeme}
    (hliteral : ∀ lexeme ∈ lexemes, lexeme.token.IsLiteral) (output : String) :
    lexemes.foldlM (Draft.step separator) ⟨[], output⟩ =
      (pure ⟨[], output ++ String.ofList ((lexemes.map Lexeme.token).flatMap delimiters.written)⟩ :
        Sampling Draft) := by
  induction lexemes generalizing output with
  | nil => simp
  | cons lexeme rest ih =>
    obtain ⟨hfirst, hrest⟩ := List.forall_mem_cons.mp hliteral
    obtain ⟨chunk | kind, start, stop⟩ := lexeme
    · rw [List.foldlM_cons, Draft.step, pure_bind, Draft.write, ih hrest, List.map_cons,
        List.flatMap_cons, String.ofList_append, Delimiters.written, String.ofList_toList,
        String.append_assoc]
    · obtain rfl : kind = .separator := hfirst
      rw [List.foldlM_cons, Draft.step, pure_bind, Draft.separate, ih hrest, List.map_cons,
        List.flatMap_cons, String.ofList_append, Delimiters.written, Delimiters.chars, ← hseparator,
        String.ofList_toList, String.append_assoc]

namespace Markers

variable {markers : Markers} {text output : String} {tape last : Tape}

/-- A result of resolving is the outcome at some indices. -/
theorem exists_outcome_of_resolve (hresolve : markers.resolve text tape = .ok output last) :
    ∃ indices, markers.outcome text indices = .ok output := by
  cases hchosen : tape.source.chooseAll? ((markers.calls text).map Call.count) with
  | none =>
    obtain ⟨stuck, hstuck⟩ := markers.resolve_of_none text hchosen
    cases hstuck.symm.trans hresolve
  | some chosen =>
    obtain ⟨indices, after⟩ := chosen
    rw [markers.resolve_of_some text hchosen] at hresolve
    refine ⟨indices, ?_⟩
    cases houtcome : markers.outcome text indices with
    | error fault =>
      rw [houtcome] at hresolve
      cases hresolve
    | ok value =>
      rw [houtcome] at hresolve
      cases hresolve
      rfl

/-- The outcome at the indices that a source gives is the result. -/
theorem exists_resolve_of_outcome {source after : Source} {counts indices : List Nat}
    (hcounts : (markers.calls text).map Call.count = counts)
    (hchosen : source.chooseAll? counts = some (indices, after))
    (houtcome : markers.outcome text indices = .ok output) :
    ∃ last, markers.resolve text { source := source } = .ok output last := by
  let tape : Tape := { source := source }
  rw [← hcounts] at hchosen
  have hrun : markers.resolve text tape = _ := markers.resolve_of_some text hchosen
  rw [houtcome] at hrun
  exact ⟨_, hrun⟩

/-- An output is left of the tokens of the text. -/
theorem leaves_of_resolve (hresolve : markers.resolve text tape = .ok output last) :
    markers.delimiters.Leaves (markers.tokens text) output := by
  obtain ⟨indices, houtcome⟩ := exists_outcome_of_resolve hresolve
  have hsound : markers.checkPairing text = .ok () := by
    rw [markers.checkPairing_eq_outcome text indices, houtcome]
    rfl
  obtain ⟨outline, hunique⟩ := exists_outline hsound
  have htokens := (hunique outline).mpr rfl
  rw [outcome_eq_evaluate htokens] at houtcome
  rw [← htokens, ← Except.ok.inj houtcome]
  exact outline.leaves_evaluate markers.delimiters rfl indices

/-- An output has no characters but those of the text. -/
theorem mem_of_resolve (hresolve : markers.resolve text tape = .ok output last) {c : Char}
    (hmem : c ∈ output.toList) : c ∈ text.toList := by
  have hsublist := (leaves_of_resolve hresolve).sublist
  rw [(markers.lexemes_tile text).2.1] at hsublist
  exact hsublist.subset hmem

/-- A mark that is a token of a text occurs in it. -/
theorem occursIn_of_mem_tokens {mark : Mark} (hmem : .mark mark ∈ markers.tokens text) :
    occursIn (markers.get mark.role) text = true := by
  obtain ⟨lexeme, hlexeme, htoken⟩ := List.mem_map.mp hmem
  obtain ⟨before, after, heq, -, -⟩ := markers.covers_of_mem_lexemes text hlexeme
  rw [occursIn_iff_isInfix, toList_get_role, heq, htoken]
  exact ⟨before, after, rfl⟩

/-- A text in which no opening and no closing marker occurs is resolved to itself without a draw. -/
theorem resolve_eq_pure
    (hnone : ∀ mark : Mark, mark ≠ .separator → occursIn (markers.get mark.role) text = false) :
    markers.resolve text = pure text := by
  have hliteral : ∀ lexeme ∈ markers.lexemes text, lexeme.token.IsLiteral := by
    intro lexeme hmem
    cases htoken : lexeme.token with
    | text chunk => trivial
    | mark mark =>
      by_contra hne
      have hoccurs : occursIn (markers.get mark.role) text = true :=
        occursIn_of_mem_tokens (htoken ▸ List.mem_map_of_mem hmem)
      rw [hnone mark hne] at hoccurs
      cases hoccurs
  have hrun := Draft.foldlM_step_literal markers.delimiters rfl hliteral ""
  change (do
    let draft ← (markers.lexemes text).foldlM (Draft.step (markers.get .separator)) ⟨[], ""⟩
    draft.finish) = _
  have hwritten : ((markers.lexemes text).map Lexeme.token).flatMap markers.delimiters.written =
    text.toList := (markers.lexemes_tile text).2.1
  rw [hrun, hwritten, pure_bind, String.ofList_toList, String.empty_append]
  rfl

/-- No marker occurs in a run of text. -/
theorem occursIn_chunk {chunk : String} (hmem : .text chunk ∈ markers.tokens text) (mark : Mark) :
    occursIn (markers.get mark.role) chunk = false := by
  obtain ⟨-, -, -, hlegible, -⟩ := markers.lexemes_tile text
  obtain ⟨after, hquiet⟩ := hlegible.quiet_of_mem markers.delimiters hmem
  rw [← Bool.not_eq_true, occursIn_iff_isInfix, toList_get_role]
  exact hquiet.not_isInfix markers.delimiters mark

/-- An output is made up of runs of the text, in which no marker occurs, and of separators.

So an opening or closing marker that occurs in an output has a part in two of these pieces or in a separator.
A marker of one character that the separator does not contain does not occur at all. -/
theorem resolve_leaves_unmarked_runs (hresolve : markers.resolve text tape = .ok output last) :
    (∃ kept : List Token, kept.Sublist (markers.tokens text) ∧
      (∀ token ∈ kept, token = .mark .separator ∨ ∃ chunk, token = .text chunk ∧
        ∀ mark : Mark, occursIn (markers.get mark.role) chunk = false) ∧
      output.toList = kept.flatMap markers.delimiters.written) ∧
    ∀ (mark : Mark) (sign : Char), mark ≠ .separator → (markers.get mark.role).toList = [sign] →
      sign ∉ (markers.get .separator).toList → occursIn (markers.get mark.role) output = false := by
  obtain ⟨kept, hkept, hliteral, heq⟩ := leaves_of_resolve hresolve
  have hpieces : ∀ token ∈ kept, token = .mark .separator ∨ ∃ chunk, token = .text chunk ∧
      ∀ mark : Mark, occursIn (markers.get mark.role) chunk = false := by
    intro token hmem
    cases token with
    | text chunk => exact .inr ⟨chunk, rfl, occursIn_chunk (hkept.subset hmem)⟩
    | mark mark => exact .inl (congrArg Token.mark (hliteral _ hmem))
  refine ⟨⟨kept, hkept, hpieces, heq⟩, fun mark sign hne hsign hseparator => ?_⟩
  rw [← Bool.not_eq_true, occursIn_iff_isInfix, hsign, List.singleton_infix_iff, heq]
  intro hmem
  obtain ⟨token, htoken, hmem⟩ := List.mem_flatMap.mp hmem
  rcases hpieces token htoken with rfl | ⟨chunk, rfl, hchunk⟩
  · exact hseparator hmem
  · have hnone := hchunk mark
    rw [← Bool.not_eq_true, occursIn_iff_isInfix, hsign, List.singleton_infix_iff] at hnone
    exact hnone hmem

/-- A group in a group, and a separator outside both. -/
theorem resolve_leaves_unmarked_runs_nested :
    ∃ last, Markers.default.resolve "\x7ba|b\x7bc\x7d\x7d|d"
        { source := .ofList [.ofNat 0, .ofNat (1 <<< 63)] } = .ok "bc|d" last ∧
      occursIn "\x7b" "bc|d" = false ∧ occursIn "\x7d" "bc|d" = false := by
  have hchosen : (Source.ofList [.ofNat 0, .ofNat (1 <<< 63)]).chooseAll? [1, 2] =
      some ([0, 1], { Source.ofList [.ofNat 0, .ofNat (1 <<< 63)] with position := 2 }) :=
    Source.chooseAll?_ofList (.cons rfl (.cons rfl .nil))
  have houtcome : Markers.default.outcome "\x7ba|b\x7bc\x7d\x7d|d" [0, 1] = .ok "bc|d" := by decide +kernel
  obtain ⟨last, hresolve⟩ := exists_resolve_of_outcome (by decide +kernel) hchosen houtcome
  obtain ⟨-, hnone⟩ := resolve_leaves_unmarked_runs hresolve
  exact ⟨last, hresolve, hnone .opening '\x7b' (by decide) rfl (by decide),
    hnone .closing '\x7d' (by decide) rfl (by decide)⟩

/-- Markers of two characters each that cannot overlap. When the two groups without text are gone,
what is left spells a whole group, and as the one alternative of the group around it this is the
output. -/
theorem resolve_joins_marker :
    ∃ (markers : Markers) (last : Tape),
      markers.texts = ⟨"<(", ")>", "|", "~"⟩ ∧
      markers.resolve "<(<<()>(x)<()>>)>"
        { source := .ofList [.ofNat 0, .ofNat 0, .ofNat 0] } = .ok "<(x)>" last ∧
      occursIn (markers.get .opening) "<(x)>" = true ∧
      occursIn (markers.get .closing) "<(x)>" = true := by
  let markers : Markers := ⟨⟨"<(", ")>", "|", "~"⟩, fun role => by cases role <;> decide⟩
  have hchosen : (Source.ofList [.ofNat 0, .ofNat 0, .ofNat 0]).chooseAll? [1, 1, 1] =
      some ([0, 0, 0], { Source.ofList [.ofNat 0, .ofNat 0, .ofNat 0] with position := 3 }) :=
    Source.chooseAll?_ofList (.cons rfl (.cons rfl (.cons rfl .nil)))
  have houtcome : markers.outcome "<(<<()>(x)<()>>)>" [0, 0, 0] = .ok "<(x)>" := by decide +kernel
  obtain ⟨last, hresolve⟩ := exists_resolve_of_outcome (by decide +kernel) hchosen houtcome
  exact ⟨markers, last, rfl, hresolve, by decide, by decide⟩

end Markers

end Spintax
