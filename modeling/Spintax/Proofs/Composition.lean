import Spintax.Proofs.Failing
import Spintax.Proofs.InStep
import Spintax.Proofs.Residue
import Spintax.Proofs.Signs
import Spintax.Proofs.Slices

/-!
# Resolving in parts, and again

When the markers are one character each, a text can be resolved part by part. The runs of text on
the two sides of a seam grow together, but this makes no difference. Behind a first part that
resolves no group is open, so what follows is resolved as by itself, only that its output stands
behind that of the first part, and its faults at offsets in the whole text. A closing marker that
pairs with nothing ends the run, whatever follows.

What resolving leaves has no more opening and closing markers, if these are one character each and
the separator does not bring them in. So resolving an output changes nothing and draws nothing.
-/

namespace Spintax

/-- The fault of a text when `offset` bytes stand in front of it. -/
def Malformed.behind (offset : Nat) (fault : Malformed) : Malformed :=
  ⟨fault.side, offset + fault.position⟩

/-- The error of a text when `offset` bytes stand in front of it. -/
def SpinError.behind (offset : Nat) : SpinError → SpinError
  | .malformed fault => .malformed (fault.behind offset)
  | error => error

/-- The lexeme of a text when `offset` bytes stand in front of it. -/
def Lexeme.behind (offset : Nat) (lexeme : Lexeme) : Lexeme :=
  ⟨lexeme.token, offset + lexeme.start, offset + lexeme.stop⟩

/-- Tokens laid side by side behind more bytes. -/
theorem Delimiters.place_eq_map_behind (delimiters : Delimiters) (offset first : Nat)
    (tokens : List Token) :
    delimiters.place (offset + first) tokens =
      (delimiters.place first tokens).map (Lexeme.behind offset) := by
  induction tokens generalizing first with
  | nil => rfl
  | cons token rest ih => rw [place, place, List.map_cons, ← ih, Nat.add_assoc]; rfl

namespace Draft

/-- The draft of a text behind another that takes `offset` bytes and has the output `front`. -/
def behind (front : String) (offset : Nat) (draft : Draft) : Draft :=
  ⟨draft.groups.map fun group => { group with start := offset + group.start }, front ++ draft.output⟩

section

variable (front : String) (offset : Nat) (draft : Draft)

/-- Writing to a draft behind another is writing to the draft. -/
theorem behind_write (chunk : String) :
    (draft.write chunk).behind front offset = (draft.behind front offset).write chunk := by
  obtain ⟨_ | ⟨group, outer⟩, output⟩ := draft <;> simp [behind, write, String.append_assoc]

/-- Beginning a group in a draft behind another is beginning it further on. -/
theorem behind_beginGroup (start : Nat) :
    (draft.beginGroup start).behind front offset =
      (draft.behind front offset).beginGroup (offset + start) := rfl

/-- Separating in a draft behind another is separating in the draft. -/
theorem behind_separate (separator : String) :
    (draft.separate separator).behind front offset =
      (draft.behind front offset).separate separator := by
  obtain ⟨_ | ⟨group, outer⟩, output⟩ := draft <;> simp [behind, separate, String.append_assoc]

/-- Closing a group behind another text chooses among the same alternatives. -/
theorem endGroup_behind (position : Nat) :
    Sampling.InStep (fun draft other => other = draft.behind front offset)
      (fun error other => other = error.behind offset) (draft.endGroup position)
      ((draft.behind front offset).endGroup (offset + position)) := by
  obtain ⟨_ | ⟨group, outer⟩, output⟩ := draft
  · exact .throw rfl
  · refine Sampling.InStep.bind (.choose ?_ _) ?_
    · rfl
    · rintro index _ rfl
      apply Sampling.InStep.bind (.report _ _)
      intro _ _ _
      exact .pure (behind_write front offset ⟨outer, output⟩ _).symm

/-- Taking in a lexeme behind another text. -/
theorem step_behind (separator : String) (lexeme : Lexeme) :
    Sampling.InStep (fun draft other => other = draft.behind front offset)
      (fun error other => other = error.behind offset) (draft.step separator lexeme)
      ((draft.behind front offset).step separator (lexeme.behind offset)) := by
  obtain ⟨chunk | mark, start, stop⟩ := lexeme
  · exact .pure (draft.behind_write front offset chunk).symm
  · cases mark with
    | opening => exact .pure (draft.behind_beginGroup front offset start).symm
    | separator => exact .pure (draft.behind_separate front offset separator).symm
    | closing => exact draft.endGroup_behind front offset start

/-- Finishing behind another text. -/
theorem finish_behind :
    Sampling.InStep (fun output other => other = front ++ output)
      (fun error other => other = error.behind offset) draft.finish
      (draft.behind front offset).finish := by
  rw [finish, finish, behind, List.getLast?_map]
  cases draft.groups.getLast? with
  | none => exact .pure rfl
  | some group => exact .throw rfl

end

end Draft

namespace Markers

variable {markers : Markers} {signs : Signs} {a b text output : String} {tape last : Tape}

/-- Tokens that are the same character by character as those of a text resolve alike. -/
theorem resolve_eq_of_cut (hspelled : markers.delimiters.SpelledBy signs) {tokens : List Token}
    (hcut : tokens.flatMap Token.cut = text.toList.map signs.tokenOf) :
    markers.resolve text = (do
      let draft ← (markers.delimiters.place 0 tokens).foldlM (Draft.step (markers.get .separator)) {}
      draft.finish) := by
  have hcalls := calls_eq_of_cut hspelled hcut
  rw [resolve_eq_makeAll, Draft.foldlM_step_finish, hcalls]
  simp only [outcome_eq_of_cut hspelled hcut]
  rfl

/-- Lexemes that stand behind others are taken in behind what these have left. -/
theorem resolve_append_eq (hspelled : markers.delimiters.SpelledBy signs) (a b : String) :
    markers.resolve (a ++ b) = (do
      let middle ← (markers.lexemes a).foldlM (Draft.step (markers.get .separator)) {}
      let draft ← ((markers.lexemes b).map (Lexeme.behind a.utf8ByteSize)).foldlM
        (Draft.step (markers.get .separator)) middle
      draft.finish) := by
  obtain ⟨hplace, hwritten, -⟩ := markers.lexemes_tile a
  obtain ⟨hplace', -⟩ := markers.lexemes_tile b
  have hcut : (markers.tokens a ++ markers.tokens b).flatMap Token.cut =
      (a ++ b).toList.map signs.tokenOf := by
    rw [List.flatMap_append, flatMap_cut_tokens hspelled, flatMap_cut_tokens hspelled,
      String.toList_append, List.map_append]
  have hbehind := markers.delimiters.place_eq_map_behind a.utf8ByteSize 0 (markers.tokens b)
  rw [← hplace', Nat.add_zero] at hbehind
  rw [resolve_eq_of_cut hspelled hcut, Delimiters.place_append, hwritten, Nat.zero_add, ← hplace,
    ← utf8ByteSize_eq_byteLength, hbehind, List.foldlM_append, bind_assoc]

/-- A text is resolved behind another as by itself. -/
theorem resolve_behind (markers : Markers) (front : String) (offset : Nat) (text : String) :
    Sampling.InStep (fun output other => other = front ++ output)
      (fun error other => other = error.behind offset) (markers.resolve text) (do
        let draft ← ((markers.lexemes text).map (Lexeme.behind offset)).foldlM
          (Draft.step (markers.get .separator)) ⟨[], front⟩
        draft.finish) := by
  have hlexemes : List.Forall₂ (fun lexeme other => other = Lexeme.behind offset lexeme)
      (markers.lexemes text) ((markers.lexemes text).map (Lexeme.behind offset)) := by
    rw [List.forall₂_map_right_iff, List.forall₂_same]
    exact fun _ _ => rfl
  have hstart : (⟨[], front⟩ : Draft) = Draft.behind front offset {} := by simp [Draft.behind]
  have hfold : Sampling.InStep (fun draft other => other = Draft.behind front offset draft)
      (fun error other => other = error.behind offset)
      ((markers.lexemes text).foldlM (Draft.step (markers.get .separator)) {})
      (((markers.lexemes text).map (Lexeme.behind offset)).foldlM
        (Draft.step (markers.get .separator)) ⟨[], front⟩) := by
    refine .foldlM hlexemes ?_ hstart
    rintro draft _ lexeme _ rfl rfl
    exact draft.step_behind front offset _ lexeme
  rw [resolve]
  apply hfold.bind
  rintro draft _ rfl
  exact draft.finish_behind front offset

/-- A run that fails stalls, or it ends with the fault that the structure check finds. -/
theorem stalled_or_fault_of_resolve {error : SpinError} {stuck : Tape}
    (hfails : markers.resolve text tape = .error error stuck) :
    error = .stalled ∨
      ∃ fault, error = .malformed fault ∧ markers.checkPairing text = .error fault :=
  or_iff_not_imp_left.mpr (exists_fault_of_resolve hfails)

/-- A first part that fails ends the run, unless it leaves a group open. Behind a first part that
resolves, the second is resolved as by itself. -/
theorem resolve_append_cases (hspelled : markers.delimiters.SpelledBy signs) (a b : String)
    (tape : Tape) :
    (∃ error stuck, markers.resolve a tape = .error error stuck ∧
      markers.resolve (a ++ b) tape = .error error stuck) ∨
    (∃ start stuck, markers.resolve a tape = .error (.malformed ⟨.opening, start⟩) stuck) ∨
    ∃ left middle, markers.resolve a tape = .ok left middle ∧
      Sampling.EndInStep (fun right output => output = left ++ right)
        (fun error other => other = error.behind a.utf8ByteSize)
        (markers.resolve b middle) (markers.resolve (a ++ b) tape) := by
  rw [resolve_append_eq hspelled]
  cases hfirst : (markers.lexemes a).foldlM (Draft.step (markers.get .separator)) {} tape with
  | error error stuck =>
    rw [Sampling.bind_of_error hfirst]
    exact .inl ⟨error, stuck, Sampling.bind_of_error hfirst, rfl⟩
  | ok draft middle =>
    rw [Sampling.bind_of_ok hfirst]
    have hresolve : markers.resolve a tape = draft.finish middle := Sampling.bind_of_ok hfirst
    right
    obtain ⟨groups, left⟩ := draft
    rcases List.eq_nil_or_concat groups with rfl | ⟨inner, group, rfl⟩
    · refine .inr ⟨left, middle, hresolve, ?_⟩
      exact markers.resolve_behind left a.utf8ByteSize b middle middle rfl
    · refine .inl ⟨group.start, middle, hresolve.trans ?_⟩
      rw [Draft.finish, List.concat_eq_append, List.getLast?_concat]
      rfl

/-- Resolving goes through a text part by part, when the markers are one character each.

Behind a text that passes the structure check, the other part is resolved from the source that is left.
Where the check blames a closing marker of the first part, the whole ends as this part does. -/
theorem resolve_append_in_turn (hspelled : markers.delimiters.SpelledBy signs) (a b : String)
    (tape : Tape) :
    (markers.checkPairing a = .ok () →
      match markers.resolve a tape with
      | .ok left middle =>
        match markers.resolve b middle with
        | .ok right last => ∃ after, after.source = last.source ∧
            markers.resolve (a ++ b) tape = .ok (left ++ right) after
        | .error (.malformed ⟨side, position⟩) last => ∃ after, after.source = last.source ∧
            markers.resolve (a ++ b) tape =
              .error (.malformed ⟨side, a.utf8ByteSize + position⟩) after
        | .error error last => error = .stalled ∧ ∃ after, after.source = last.source ∧
            markers.resolve (a ++ b) tape = .error .stalled after
      | .error error stuck => error = .stalled ∧
          markers.resolve (a ++ b) tape = .error .stalled stuck) ∧
    ∀ position, markers.checkPairing a = .error ⟨.closing, position⟩ →
      markers.resolve (a ++ b) tape = markers.resolve a tape ∧
        ((∃ last, markers.resolve (a ++ b) tape = .error (.malformed ⟨.closing, position⟩) last) ∨
          ∃ stuck, markers.resolve (a ++ b) tape = .error .stalled stuck) := by
  have hcases := markers.resolve_append_cases hspelled a b tape
  constructor
  · intro hsound
    rcases hcases with ⟨error, stuck, hfirst, hwhole⟩ | ⟨start, stuck, hfirst⟩ |
      ⟨left, middle, hfirst, hends⟩
    · obtain rfl | ⟨fault, rfl, hfault⟩ := stalled_or_fault_of_resolve hfirst
      · rw [hfirst]
        exact ⟨rfl, hwhole⟩
      · cases hsound.symm.trans hfault
    · obtain ⟨fault, -, hfault⟩ := exists_fault_of_resolve hfirst (by simp)
      cases hsound.symm.trans hfault
    · simp only [hfirst]
      generalize markers.resolve (a ++ b) tape = whole at hends ⊢
      cases hsecond : markers.resolve b middle with
      | ok right last =>
        rw [hsecond] at hends
        cases hends with
        | @ok _ _ _ after hvalue hsource => exact ⟨after, hsource.symm, hvalue ▸ rfl⟩
      | error error last =>
        rw [hsecond] at hends
        cases hends with
        | @error _ _ _ after herror hsource =>
          obtain rfl | ⟨⟨side, position⟩, rfl, -⟩ := stalled_or_fault_of_resolve hsecond
          · exact ⟨rfl, after, hsource.symm, herror ▸ rfl⟩
          · exact ⟨after, hsource.symm, herror ▸ rfl⟩
  · intro position hfault
    rcases hcases with ⟨error, stuck, hfirst, hwhole⟩ | ⟨start, stuck, hfirst⟩ |
      ⟨left, middle, hfirst, -⟩
    · refine ⟨hwhole.trans hfirst.symm, ?_⟩
      obtain rfl | ⟨fault, rfl, hfault'⟩ := stalled_or_fault_of_resolve hfirst
      · exact .inr ⟨stuck, hwhole⟩
      · cases hfault.symm.trans hfault'
        exact .inl ⟨stuck, hwhole⟩
    · obtain ⟨fault, herror, hfault'⟩ := exists_fault_of_resolve hfirst (by simp)
      cases herror
      cases hfault.symm.trans hfault'
    · cases hfault.symm.trans (checkPairing_of_resolve hfirst)

/-- The runs of text at the seam grow together, and the fault of the second part is seven bytes
further on in the whole. -/
theorem resolve_append_in_turn_fault :
    ∃ after, after.source.position = 1 ∧ Markers.default.resolve ("\x7ba|b\x7dé" ++ "c\x7d")
      { source := .ofList [] } = .error (.malformed ⟨.closing, 8⟩) after := by
  let tape : Tape := { source := .ofList [] }
  have hsound : Markers.default.checkPairing "\x7ba|b\x7dé" = .ok () := by decide +kernel
  have hfirst : ∃ middle, Markers.default.resolve "\x7ba|b\x7dé" tape = .ok "aé" middle ∧
      middle.source.position = 1 := by decide +kernel
  obtain ⟨middle, hfirst, hposition⟩ := hfirst
  have hcalls : Markers.default.calls "c\x7d" = [] := by decide +kernel
  have houtcome : Markers.default.outcome "c\x7d" [] = .error ⟨.closing, 1⟩ := by decide +kernel
  have hsecond : Markers.default.resolve "c\x7d" middle =
      .error (.malformed ⟨.closing, 1⟩) middle := by
    rw [resolve_eq_makeAll, hcalls]
    change Sampling.settle (Markers.default.outcome "c\x7d" []) middle = _
    rw [houtcome]
    rfl
  have hwhole := (resolve_append_in_turn spelledBy_default "\x7ba|b\x7dé" "c\x7d" tape).1 hsound
  simp only [hfirst, hsecond] at hwhole
  obtain ⟨after, hsource, hwhole⟩ := hwhole
  exact ⟨after, hsource ▸ hposition, hwhole⟩

/-- A character of an output stands in a run of the text or in the separator. -/
theorem mem_run_or_separator_of_resolve (hresolve : markers.resolve text tape = .ok output last)
    {c : Char} (hmem : c ∈ output.toList) :
    (∃ chunk, .text chunk ∈ markers.tokens text ∧ c ∈ chunk.toList) ∨
      c ∈ (markers.get .separator).toList := by
  obtain ⟨kept, hkept, hliteral, heq⟩ := leaves_of_resolve hresolve
  rw [heq] at hmem
  obtain ⟨token, htoken, hmem⟩ := List.mem_flatMap.mp hmem
  cases token with
  | text chunk => exact .inl ⟨chunk, hkept.subset htoken, hmem⟩
  | mark mark =>
    obtain rfl : mark = .separator := hliteral _ htoken
    exact .inr hmem

/-- A marker of one character is in no output, if the separator does not contain it. -/
theorem occursIn_output_of_sign (hresolve : markers.resolve text tape = .ok output last)
    {mark : Mark} {sign : Char} (hsign : (markers.get mark.role).toList = [sign])
    (hseparator : sign ∉ (markers.get .separator).toList) :
    occursIn (markers.get mark.role) output = false := by
  rw [← Bool.not_eq_true, occursIn_iff_isInfix, hsign, List.singleton_infix_iff]
  intro hmem
  rcases mem_run_or_separator_of_resolve hresolve hmem with ⟨chunk, hchunk, hmem⟩ | hmem
  · have hnone := occursIn_chunk hchunk mark
    rw [← Bool.not_eq_true, occursIn_iff_isInfix, hsign, List.singleton_infix_iff] at hnone
    exact hnone hmem
  · exact hseparator hmem

/-- Resolving an output changes nothing, when the opening and the closing marker are one character
each and the separator contains neither. The output passes the structure check, and it resolves to
itself from any source and without a draw. -/
theorem resolve_output_again {opening closing : Char}
    (hopening : (markers.get .opening).toList = [opening])
    (hclosing : (markers.get .closing).toList = [closing])
    (hseparator : opening ∉ (markers.get .separator).toList ∧
      closing ∉ (markers.get .separator).toList)
    (hresolve : markers.resolve text tape = .ok output last) :
    markers.checkPairing output = .ok () ∧
      ∀ other : Tape, markers.resolve output other = .ok output other := by
  have hnone : ∀ mark : Mark, mark ≠ .separator →
      occursIn (markers.get mark.role) output = false := by
    intro mark hne
    cases mark with
    | opening => exact occursIn_output_of_sign hresolve hopening hseparator.1
    | closing => exact occursIn_output_of_sign hresolve hclosing hseparator.2
    | separator => exact absurd rfl hne
  have hagain (other : Tape) : markers.resolve output other = .ok output other := by
    rw [resolve_eq_pure hnone]
    rfl
  exact ⟨checkPairing_of_resolve (hagain tape), hagain⟩

/-- What two groups leave joins to a separator of two characters. -/
theorem resolve_output_again_joined :
    ∃ (markers : Markers) (last : Tape), markers.texts = ⟨"(", ")", "<>", "~"⟩ ∧
      markers.resolve "(<)(>)" { source := .ofList [] } = .ok "<>" last ∧
      markers.checkPairing "<>" = .ok () ∧
      ∀ other : Tape, markers.resolve "<>" other = .ok "<>" other := by
  let markers : Markers := ⟨⟨"(", ")", "<>", "~"⟩, fun role => by cases role <;> decide⟩
  have hfirst : ∃ last, markers.resolve "(<)(>)" { source := .ofList [] } = .ok "<>" last :=
    by decide +kernel
  obtain ⟨last, hfirst⟩ := hfirst
  have hopening : (markers.get .opening).toList = ['('] := by decide
  have hclosing : (markers.get .closing).toList = [')'] := by decide
  exact ⟨markers, last, rfl, hfirst, resolve_output_again hopening hclosing (by decide) hfirst⟩

end Markers

end Spintax
