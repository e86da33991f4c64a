import Spintax.Proofs.Calls
import Spintax.Proofs.Depth

/-!
# Markers of one character each

When the opening, the closing and the separator marker are one character each, a text can be read
character by character: each character is a mark or a text by itself. The runs of text that the scan
forms are only these texts written together, and writing texts one by one or together comes to the
same. So neither the calls of a text nor its outcome depend on how its characters are grouped into
runs. The three characters need not differ; the order of trial decides between them. In a text that
passes the structure check each closing sign is a closing marker all the same.
-/

namespace Spintax

/-- One character for each of the three marks. -/
structure Signs where
  opening : Char
  closing : Char
  separator : Char
deriving DecidableEq, Repr

namespace Signs

/-- The character of a mark. -/
def char (signs : Signs) : Mark → Char
  | .opening => signs.opening
  | .closing => signs.closing
  | .separator => signs.separator

/-- The first mark, in the order of trial, that a character is the sign of. -/
def markOf? (signs : Signs) (c : Char) : Option Mark :=
  Mark.all.find? fun mark => signs.char mark == c

/-- What a character is by itself: a mark, or else a text. -/
def tokenOf (signs : Signs) (c : Char) : Token :=
  match signs.markOf? c with
  | some mark => .mark mark
  | none => .text (String.singleton c)

/-- A character is no sign. -/
def IsPlain (signs : Signs) (c : Char) : Prop :=
  c ≠ signs.opening ∧ c ≠ signs.closing ∧ c ≠ signs.separator

variable {signs : Signs} {c : Char}

/-- The opening sign is the opening marker. -/
theorem tokenOf_opening : signs.tokenOf signs.opening = .mark .opening := by
  simp [tokenOf, markOf?, Mark.all, char]

/-- The closing sign is the closing marker, unless it is the opening sign. -/
theorem tokenOf_closing (hne : signs.closing ≠ signs.opening) :
    signs.tokenOf signs.closing = .mark .closing := by
  simp [tokenOf, markOf?, Mark.all, char, hne.symm]

/-- The separator sign is the separator, unless it is another sign. -/
theorem tokenOf_separator (hopening : signs.separator ≠ signs.opening)
    (hclosing : signs.separator ≠ signs.closing) :
    signs.tokenOf signs.separator = .mark .separator := by
  simp [tokenOf, markOf?, Mark.all, char, hopening.symm, hclosing.symm]

/-- Just the plain characters are no mark. -/
theorem markOf?_eq_none_iff : signs.markOf? c = none ↔ signs.IsPlain c := by
  simp [markOf?, Mark.all, char, IsPlain, eq_comm (a := c)]

/-- The character of a mark is not plain. -/
theorem IsPlain.char_ne (hplain : signs.IsPlain c) (mark : Mark) : signs.char mark ≠ c := by
  obtain ⟨hopening, hclosing, hseparator⟩ := hplain
  cases mark with
  | opening => exact hopening.symm
  | closing => exact hclosing.symm
  | separator => exact hseparator.symm

/-- A plain character is a chunk of text. -/
theorem tokenOf_of_isPlain (hplain : signs.IsPlain c) :
    signs.tokenOf c = .text (String.singleton c) := by
  rw [tokenOf, markOf?_eq_none_iff.mpr hplain]

/-- If the signs differ, each of them is its mark by itself. -/
theorem tokenOf_char (hdistinct : [signs.opening, signs.closing, signs.separator].Nodup)
    (mark : Mark) : signs.tokenOf (signs.char mark) = .mark mark := by
  simp only [List.nodup_cons, List.mem_cons, List.not_mem_nil, or_false, not_or] at hdistinct
  obtain ⟨⟨hclosing, hseparator⟩, hrest, -⟩ := hdistinct
  cases mark with
  | opening => exact tokenOf_opening
  | closing => exact tokenOf_closing (Ne.symm hclosing)
  | separator => exact tokenOf_separator (Ne.symm hseparator) (Ne.symm hrest)

/-- A character is the opening sign, or else the closing sign, or else the separator, or else plain. -/
theorem char_cases (signs : Signs) (c : Char) :
    c = signs.opening ∨ (c = signs.closing ∧ signs.closing ≠ signs.opening) ∨
      (c = signs.separator ∧ signs.separator ≠ signs.opening ∧ signs.separator ≠ signs.closing) ∨
      signs.IsPlain c := by
  by_cases hopening : c = signs.opening
  · exact .inl hopening
  by_cases hclosing : c = signs.closing
  · exact .inr (.inl ⟨hclosing, hclosing ▸ hopening⟩)
  by_cases hseparator : c = signs.separator
  · exact .inr (.inr (.inl ⟨hseparator, hseparator ▸ hopening, hseparator ▸ hclosing⟩))
  · exact .inr (.inr (.inr ⟨hopening, hclosing, hseparator⟩))

end Signs

/-- The texts of the single characters of a run; a mark is not cut. -/
def Token.cut : Token → List Token
  | .text chunk => chunk.toList.map fun c => .text (String.singleton c)
  | .mark kind => [.mark kind]

/-- The token of one character is not cut. -/
theorem Signs.cut_tokenOf (signs : Signs) (c : Char) :
    (signs.tokenOf c).cut = [signs.tokenOf c] := by
  rw [tokenOf]
  cases signs.markOf? c with
  | none => simp [Token.cut]
  | some mark => rfl

/-- What is read character by character cannot be cut further. -/
theorem Signs.flatMap_cut_tokenOf (signs : Signs) (cs : List Char) :
    (cs.map signs.tokenOf).flatMap Token.cut = cs.map signs.tokenOf := by
  simp only [List.flatMap_map, cut_tokenOf, ← List.map_eq_flatMap]

/-- A chunk of text is cut into its characters. -/
theorem Token.cut_text_ofList (cs : List Char) :
    Token.cut (.text (String.ofList cs)) = cs.map fun c => .text (String.singleton c) := by
  rw [cut, String.toList_ofList]

namespace Delimiters

/-- The three marks are single characters. -/
def SpelledBy (delimiters : Delimiters) (signs : Signs) : Prop :=
  ∀ mark, delimiters.chars mark = [signs.char mark]

variable {delimiters : Delimiters} {signs : Signs}

/-- The characters of a token are those of the texts it is cut into. -/
theorem flatMap_written_cut (token : Token) :
    token.cut.flatMap delimiters.written = delimiters.written token := by
  cases token with
  | text chunk => simp [Token.cut, List.flatMap_map, written]
  | mark mark => simp [Token.cut]

/-- If the signs differ, a token without signs in it is cut into what its characters are by
themselves. -/
theorem cut_eq_map_tokenOf (hspelled : delimiters.SpelledBy signs)
    (hdistinct : [signs.opening, signs.closing, signs.separator].Nodup) {token : Token}
    (hplain : ∀ chunk, token = .text chunk → ∀ c ∈ chunk.toList, signs.IsPlain c) :
    token.cut = (delimiters.written token).map signs.tokenOf := by
  cases token with
  | text chunk =>
    rw [Token.cut, written]
    exact List.map_congr_left fun c hmem => (Signs.tokenOf_of_isPlain (hplain chunk rfl c hmem)).symm
  | mark kind =>
    rw [Token.cut, written, hspelled kind, List.map_singleton, Signs.tokenOf_char hdistinct]

/-- The mark found at a place is that of the first character ahead. -/
theorem markAt?_cons (hspelled : delimiters.SpelledBy signs) (c : Char) (cs : List Char) :
    delimiters.markAt? (c :: cs) = signs.markOf? c := by
  unfold markAt? Signs.markOf?
  congr
  funext mark
  rw [hspelled mark, List.isPrefixOf_cons_cons, List.isPrefixOf_nil_left, Bool.and_true]

/-- Cut into single characters, a run of plain characters is what they are by themselves. -/
theorem flatMap_cut_pushRun (start here : Nat) {run : List Char} (found : List Lexeme)
    (hrun : ∀ c ∈ run, signs.IsPlain c) :
    ((Lexeme.pushRun start here run found).reverse.map Lexeme.token).flatMap Token.cut =
      (found.reverse.map Lexeme.token).flatMap Token.cut ++ run.reverse.map signs.tokenOf := by
  have htokens : run.reverse.map signs.tokenOf =
      run.reverse.map fun c => .text (String.singleton c) :=
    List.map_congr_left fun c hmem => Signs.tokenOf_of_isPlain (hrun c (List.mem_reverse.mp hmem))
  rw [htokens]
  cases run with
  | nil => simp [Lexeme.pushRun]
  | cons c cs =>
    rw [Lexeme.pushRun, List.isEmpty_cons, if_neg Bool.false_ne_true, List.reverse_cons,
      List.map_append, List.flatMap_append, ← Token.cut_text_ofList]
    simp

/-- Cut into single characters, the tokens of a scan are what its characters are by themselves. -/
theorem flatMap_cut_scan (hspelled : delimiters.SpelledBy signs) (start here : Nat)
    (run : List Char) (found : List Lexeme) (cs : List Char) (hrun : ∀ c ∈ run, signs.IsPlain c) :
    ((delimiters.scan start here run found cs).map Lexeme.token).flatMap Token.cut =
      (found.reverse.map Lexeme.token).flatMap Token.cut ++
        (run.reverse ++ cs).map signs.tokenOf := by
  induction start, here, run, found, cs using Delimiters.scan.induct delimiters with
  | case1 start here run found =>
    rw [scan, flatMap_cut_pushRun start here found hrun, List.append_nil]
  | case2 start here run found c cs mark hmark stop ih =>
    rw [scan]
    simp only [hmark]
    rw [markAt?_cons hspelled] at hmark
    have hlength : (delimiters.chars mark).length = 1 := by rw [hspelled mark, List.length_singleton]
    rw [ih (by simp), hlength, List.drop_one, List.tail_cons, List.reverse_cons, List.map_append,
      List.flatMap_append, flatMap_cut_pushRun start here found hrun]
    simp [Token.cut, Signs.tokenOf, hmark]
  | case3 start here run found c cs hmark ih =>
    rw [scan]
    simp only [hmark]
    rw [markAt?_cons hspelled] at hmark
    have hplain := Signs.markOf?_eq_none_iff.mp hmark
    rw [ih (List.forall_mem_cons.mpr ⟨hplain, hrun⟩), List.reverse_cons, List.append_assoc,
      List.singleton_append]

end Delimiters

/-- A mark is not cut. -/
theorem count_flatMap_cut (tokens : List Token) (mark : Mark) :
    (tokens.flatMap Token.cut).count (.mark mark) = tokens.count (.mark mark) := by
  induction tokens with
  | nil => rfl
  | cons token rest ih =>
    rw [List.flatMap_cons, List.count_append, ih]
    cases token with
    | text chunk =>
      have hnone : Token.mark mark ∉ Token.cut (.text chunk) := by simp [Token.cut]
      rw [List.count_eq_zero_of_not_mem hnone, Nat.zero_add, List.count_cons_of_ne (by simp)]
    | mark kind => rw [Token.cut, ← List.count_append, List.singleton_append]

namespace Signs

variable {signs : Signs} {c : Char}

/-- Just the opening sign is an opening mark. -/
theorem tokenOf_eq_opening_iff : signs.tokenOf c = .mark .opening ↔ c = signs.opening := by
  rcases signs.char_cases c with rfl | ⟨rfl, hne⟩ | ⟨rfl, hopening, hclosing⟩ | hplain
  · simp [tokenOf_opening]
  · simp [tokenOf_closing hne, hne]
  · simp [tokenOf_separator hopening hclosing, hopening]
  · simp [tokenOf_of_isPlain hplain, hplain.1]

/-- The closing sign is a closing mark, unless it is the opening sign as well. -/
theorem tokenOf_eq_closing_iff :
    signs.tokenOf c = .mark .closing ↔ c = signs.closing ∧ signs.closing ≠ signs.opening := by
  rcases signs.char_cases c with rfl | ⟨rfl, hne⟩ | ⟨rfl, hopening, hclosing⟩ | hplain
  · simp [tokenOf_opening, eq_comm]
  · simp [tokenOf_closing hne, hne]
  · simp [tokenOf_separator hopening hclosing, hclosing]
  · simp [tokenOf_of_isPlain hplain, hplain.2.1]

/-- How often a mark stands among characters is how many of them are this mark by themselves. -/
theorem count_map_tokenOf (cs : List Char) (mark : Mark) :
    (cs.map signs.tokenOf).count (.mark mark) =
      cs.countP fun c => signs.tokenOf c = .mark mark := by
  rw [List.count, List.countP_map]
  congr

end Signs

section

variable (delimiters : Delimiters)

namespace Draft

/-- Taking in the texts of characters one by one writes them all. -/
theorem outcome_place_chars (separator : String) (draft : Draft) (offset : Nat) (cs : List Char)
    (later : List Lexeme) (indices : List Nat) :
    draft.outcome separator
        (delimiters.place offset (cs.map fun c => .text (String.singleton c)) ++ later) indices =
      (draft.write (String.ofList cs)).outcome separator later indices := by
  induction cs generalizing draft offset with
  | nil => rw [String.ofList_nil, write_empty]; rfl
  | cons c cs ih =>
    rw [List.map_cons, Delimiters.place, List.cons_append, outcome_text, ih, write_write,
      String.ofList_cons]

/-- The outcome does not depend on how characters are grouped into runs. -/
theorem outcome_place_cut (separator : String) (draft : Draft) (offset : Nat)
    (tokens : List Token) (indices : List Nat) :
    draft.outcome separator (delimiters.place offset (tokens.flatMap Token.cut)) indices =
      draft.outcome separator (delimiters.place offset tokens) indices := by
  induction tokens generalizing draft offset indices with
  | nil => rfl
  | cons token rest ih =>
    rw [List.flatMap_cons, Delimiters.place_append, Delimiters.flatMap_written_cut]
    cases token with
    | text chunk =>
      rw [Token.cut, outcome_place_chars, String.ofList_toList, ih]
      rfl
    | mark kind =>
      cases kind with
      | opening => exact ih _ _ _
      | separator => exact ih _ _ _
      | closing =>
        obtain ⟨_ | ⟨group, outer⟩, output⟩ := draft
        · rfl
        · exact ih _ _ _

end Draft

/-- Characters that are texts ask for no calls. -/
theorem callsFrom_place_chars (pending : List (Nat × Nat)) (offset : Nat) (cs : List Char)
    (later : List Lexeme) :
    callsFrom pending
        (delimiters.place offset (cs.map fun c => .text (String.singleton c)) ++ later) =
      callsFrom pending later := by
  induction cs generalizing offset with
  | nil => rfl
  | cons c cs ih => exact ih _

/-- The calls do not depend on how characters are grouped into runs. -/
theorem callsFrom_place_cut (pending : List (Nat × Nat)) (offset : Nat) (tokens : List Token) :
    callsFrom pending (delimiters.place offset (tokens.flatMap Token.cut)) =
      callsFrom pending (delimiters.place offset tokens) := by
  induction tokens generalizing pending offset with
  | nil => rfl
  | cons token rest ih =>
    rw [List.flatMap_cons, Delimiters.place_append, Delimiters.flatMap_written_cut]
    cases token with
    | text chunk =>
      rw [Token.cut, callsFrom_place_chars, ih]
      rfl
    | mark kind =>
      cases kind with
      | opening => exact ih _ _
      | separator =>
        obtain _ | ⟨⟨began, count⟩, outer⟩ := pending
        · exact ih _ _
        · exact ih _ _
      | closing =>
        obtain _ | ⟨⟨began, count⟩, outer⟩ := pending
        · rfl
        · exact congrArg (Call.mk began offset count :: ·) (ih _ _)

end

namespace Markers

variable {markers : Markers} {signs : Signs}

/-- The default markers are one character each. -/
theorem spelledBy_default : Markers.default.delimiters.SpelledBy ⟨'\x7b', '\x7d', '|'⟩ := by
  intro mark
  cases mark <;> decide

/-- Cut into single characters, the tokens of a text are what its characters are by themselves. -/
theorem flatMap_cut_tokens (hspelled : markers.delimiters.SpelledBy signs) (text : String) :
    (markers.tokens text).flatMap Token.cut = text.toList.map signs.tokenOf :=
  Delimiters.flatMap_cut_scan hspelled 0 0 [] [] text.toList (by simp)

/-- In a text that passes the structure check, each closing sign is a closing marker. -/
theorem count_closing_tokens (hspelled : markers.delimiters.SpelledBy signs)
    (hsound : markers.checkPairing text = .ok ()) :
    (markers.tokens text).count (.mark .closing) = text.toList.count signs.closing := by
  have hcount (mark : Mark) : (markers.tokens text).count (.mark mark) =
      text.toList.countP fun c => signs.tokenOf c = .mark mark := by
    rw [← count_flatMap_cut, flatMap_cut_tokens hspelled, Signs.count_map_tokenOf]
  have hbalance := count_opening_of_checkPairing hsound
  by_cases hne : signs.closing = signs.opening
  · -- Each sign is tried as an opening one first, and so there is nothing to pair it with.
    have hnone : (markers.tokens text).count (.mark .closing) = 0 := by
      rw [hcount, List.countP_eq_zero]
      intro c hmem
      simp [Signs.tokenOf_eq_closing_iff, hne]
    rw [hnone, hcount] at hbalance
    rw [hnone, hne, ← hbalance, List.count]
    exact List.countP_congr fun c _ => by simp [Signs.tokenOf_eq_opening_iff]
  · rw [hcount, List.count]
    exact List.countP_congr fun c _ => by simp [Signs.tokenOf_eq_closing_iff, hne]

/-- Tokens that are the same character by character as those of a text have the same outcome. -/
theorem outcome_eq_of_cut (hspelled : markers.delimiters.SpelledBy signs) {text : String}
    {tokens : List Token} (hcut : tokens.flatMap Token.cut = text.toList.map signs.tokenOf)
    (indices : List Nat) :
    markers.outcome text indices =
      Draft.outcome (markers.get .separator) {} (markers.delimiters.place 0 tokens) indices := by
  rw [outcome, (markers.lexemes_tile text).1, ← Draft.outcome_place_cut,
    flatMap_cut_tokens hspelled, ← hcut, Draft.outcome_place_cut]

/-- Tokens that are the same character by character as those of a text have the same calls. -/
theorem calls_eq_of_cut (hspelled : markers.delimiters.SpelledBy signs) {text : String}
    {tokens : List Token} (hcut : tokens.flatMap Token.cut = text.toList.map signs.tokenOf) :
    markers.calls text = callsFrom [] (markers.delimiters.place 0 tokens) := by
  rw [calls, (markers.lexemes_tile text).1, ← callsFrom_place_cut, flatMap_cut_tokens hspelled,
    ← hcut, callsFrom_place_cut]

end Markers

end Spintax
