import Mathlib.Data.List.Chain
import Spintax.Proofs.Slices

/-!
# The only tiling of a text

A tiling of a text is a row of lexemes whose spans follow each other without a gap, from the first
byte to the last, such that every mark is the first in the order of trial that begins at its place,
no mark begins anywhere in a run of text, and no two runs are neighbours. The lexemes of a text are a
tiling of it, and there is no other: tokens that can be read back, and whose marks are the first
found, are what a scan of their characters finds.
-/

namespace Spintax

/-- The marks that have priority over a mark. -/
def Mark.before : Mark → List Mark
  | .opening => []
  | .closing => [.opening]
  | .separator => [.opening, .closing]

/-- Whether a token is a run of text. -/
def Token.IsRun : Token → Prop
  | .text _ => True
  | .mark _ => False

/-- The spans follow each other without a gap, from byte `first` to byte `last`. -/
def Contiguous (last : Nat) : Nat → List Lexeme → Prop
  | first, [] => first = last
  | first, lexeme :: rest => lexeme.start = first ∧ Contiguous last lexeme.stop rest

/-- A row of lexemes that cuts a text into marks and the runs of other characters between them. -/
structure Markers.Tiling (markers : Markers) (text : String) (lexemes : List Lexeme) : Prop where
  contiguous : Contiguous text.utf8ByteSize 0 lexemes
  nonempty : ∀ lexeme ∈ lexemes, lexeme.start < lexeme.stop
  boundaries : ∀ lexeme ∈ lexemes,
    Text.IsBoundary text lexeme.start ∧ Text.IsBoundary text lexeme.stop
  join_slices :
    String.join (lexemes.map fun lexeme => Text.slice text lexeme.start lexeme.stop) = text
  mark_slice : ∀ mark start stop, ⟨.mark mark, start, stop⟩ ∈ lexemes →
    Text.slice text start stop = markers.get mark.role
  mark_first : ∀ mark start stop, ⟨.mark mark, start, stop⟩ ∈ lexemes →
    ∀ other ∈ mark.before, ¬ Text.BeginsAt (markers.get other.role) text start
  run_slice : ∀ chunk start stop, ⟨.text chunk, start, stop⟩ ∈ lexemes →
    Text.slice text start stop = chunk
  run_clear : ∀ chunk start stop, ⟨.text chunk, start, stop⟩ ∈ lexemes →
    ∀ position, start ≤ position → position < stop →
      ∀ mark : Mark, ¬ Text.BeginsAt (markers.get mark.role) text position
  apart : lexemes.IsChain fun lexeme next => ¬ (lexeme.token.IsRun ∧ next.token.IsRun)

namespace Delimiters

variable (delimiters : Delimiters)

/-- A mark is found when the characters begin with it and with none that has priority over it. -/
theorem markAt?_eq_some_iff {cs : List Char} {mark : Mark} :
    delimiters.markAt? cs = some mark ↔
      delimiters.chars mark <+: cs ∧ ∀ other ∈ mark.before, ¬ delimiters.chars other <+: cs := by
  have hbegins (mark : Mark) :
      (delimiters.chars mark).isPrefixOf cs = decide (delimiters.chars mark <+: cs) := by
    rw [Bool.eq_iff_iff, List.isPrefixOf_iff_prefix, decide_eq_true_iff]
  simp only [markAt?, Mark.all, hbegins]
  cases mark <;> simp [Mark.before, List.find?_cons_eq_some] <;> tauto

/-- No mark is found when the characters begin with none. -/
theorem markAt?_eq_none_iff {cs : List Char} :
    delimiters.markAt? cs = none ↔ ∀ mark, ¬ delimiters.chars mark <+: cs := by
  rw [markAt?, List.find?_eq_none]
  constructor
  · intro hnone mark hbegins
    exact hnone mark (by cases mark <;> decide) (List.isPrefixOf_iff_prefix.mpr hbegins)
  · intro hnone mark _ hbegins
    exact hnone mark (List.isPrefixOf_iff_prefix.mp hbegins)

/-- A run is quiet when no mark is found wherever it is cut in front of a character. -/
theorem quiet_iff {after run : List Char} :
    delimiters.Quiet after run ↔ ∀ left c right, run = left ++ c :: right →
      delimiters.markAt? (c :: (right ++ after)) = none := by
  constructor
  · rintro hquiet left c right rfl
    rw [quiet_append] at hquiet
    exact hquiet.2.1
  · intro hcuts
    induction run with
    | nil => trivial
    | cons c run ih =>
      refine ⟨hcuts [] c run rfl, ih ?_⟩
      rintro left d right rfl
      exact hcuts (c :: left) d right rfl

/-- Tokens can be read back when every run among them is quiet in front of the tokens behind it, and
no two runs are neighbours. -/
theorem legible_iff {tokens : List Token} :
    delimiters.Legible tokens ↔
      (∀ chunk right, .text chunk :: right <:+ tokens →
        delimiters.Quiet (right.flatMap delimiters.written) chunk.toList) ∧
      tokens.IsChain fun token next => ¬ (token.IsRun ∧ next.IsRun) := by
  induction tokens with
  | nil => simp [Legible]
  | cons token rest ih =>
    rw [List.isChain_cons]
    simp only [List.suffix_cons_iff]
    cases token with
    | mark mark => simp [Legible, ih, Token.IsRun]
    | text chunk =>
      have hapart : (∀ later, rest.head? ≠ some (.text later)) ↔
          ∀ next ∈ rest.head?, ¬ ((Token.text chunk).IsRun ∧ next.IsRun) := by
        constructor
        · rintro hall (later | mark) hnext ⟨-, hrun⟩
          · exact hall later hnext
          · exact hrun
        · intro hall later hnext
          exact hall _ hnext ⟨trivial, trivial⟩
      rw [Legible, ih, hapart]
      constructor
      · rintro ⟨hquiet, hnext, hrest, hchain⟩
        refine ⟨?_, hnext, hchain⟩
        rintro other right (heq | hsuffix)
        · cases heq
          exact hquiet
        · exact hrest other right hsuffix
      · rintro ⟨hall, hnext, hchain⟩
        refine ⟨hall chunk rest (.inl rfl), hnext, ?_, hchain⟩
        exact fun other right hsuffix => hall other right (.inr hsuffix)

/-- The marks among tokens are the first found when each is in front of the tokens behind it. -/
theorem foremost_iff {tokens : List Token} :
    delimiters.Foremost tokens ↔ ∀ mark right, .mark mark :: right <:+ tokens →
      delimiters.markAt? ((Token.mark mark :: right).flatMap delimiters.written) = some mark := by
  induction tokens with
  | nil => simp [Foremost]
  | cons token rest ih =>
    simp only [List.suffix_cons_iff]
    cases token with
    | text chunk => simp [Foremost, ih]
    | mark mark =>
      rw [Foremost, ih]
      constructor
      · rintro ⟨hfound, hrest⟩ other right (heq | hsuffix)
        · cases heq
          exact hfound
        · exact hrest other right hsuffix
      · intro hall
        exact ⟨hall mark rest (.inl rfl), fun other right hsuffix => hall other right (.inr hsuffix)⟩

/-- A scan passes over a quiet run. -/
theorem scan_append_of_quiet {after run : List Char} (hquiet : delimiters.Quiet after run)
    (start here : Nat) (earlier : List Char) (found : List Lexeme) :
    delimiters.scan start here earlier found (run ++ after) =
      delimiters.scan start (here + byteLength run) (run.reverse ++ earlier) found after := by
  induction run generalizing here earlier with
  | nil => simp
  | cons c run ih =>
    obtain ⟨hnone, hrest⟩ := hquiet
    rw [List.cons_append, scan]
    simp only [hnone]
    rw [ih hrest, byteLength_cons, Nat.add_assoc, List.reverse_cons, List.append_assoc,
      List.singleton_append]

/-- At a mark or at the end, the run in progress is complete. -/
theorem scan_eq_scan_pushRun {after : List Char}
    (hends : ∀ c rest, after = c :: rest → delimiters.markAt? after ≠ none)
    (start here : Nat) (run : List Char) (found : List Lexeme) :
    delimiters.scan start here run found after =
      delimiters.scan here here [] (Lexeme.pushRun start here run found) after := by
  cases after with
  | nil =>
    rw [scan, scan]
    rfl
  | cons c rest =>
    obtain ⟨mark, hmark⟩ := Option.ne_none_iff_exists'.mp (hends c rest rfl)
    rw [scan, scan]
    simp only [hmark]
    rfl

/-- A scan of the characters of legible tokens, whose marks are the first found, finds them again. -/
theorem scan_flatMap_written {tokens : List Token} (hne : ∀ token ∈ tokens,
    delimiters.written token ≠ []) (hlegible : delimiters.Legible tokens)
    (hforemost : delimiters.Foremost tokens) (here : Nat) (found : List Lexeme) :
    delimiters.scan here here [] found (tokens.flatMap delimiters.written) =
      found.reverse ++ delimiters.place here tokens := by
  induction tokens generalizing here found with
  | nil =>
    rw [List.flatMap_nil, scan]
    simp [Lexeme.pushRun, place]
  | cons token rest ih =>
    rw [List.forall_mem_cons] at hne
    cases token with
    | mark mark =>
      obtain ⟨hfound, hrest⟩ := hforemost
      obtain ⟨c, cs, hchars⟩ := List.exists_cons_of_ne_nil (delimiters.chars_ne_nil mark)
      have hwritten : (Token.mark mark :: rest).flatMap delimiters.written =
          c :: (cs ++ rest.flatMap delimiters.written) := by
        rw [List.flatMap_cons, written, hchars, List.cons_append]
      rw [hwritten] at hfound ⊢
      rw [scan]
      simp only [hfound]
      rw [← List.cons_append, ← hchars, List.drop_left, ih hne.2 hlegible hrest, List.reverse_cons]
      simp [Lexeme.pushRun, place, written]
    | text chunk =>
      obtain ⟨hquiet, hhead, hlater⟩ := hlegible
      have hends : ∀ c cs, rest.flatMap delimiters.written = c :: cs →
          delimiters.markAt? (rest.flatMap delimiters.written) ≠ none := by
        intro c cs hcs
        cases rest with
        | nil => cases hcs
        | cons next later =>
          cases next with
          | text other => exact absurd rfl (hhead other)
          | mark mark =>
            have hfound := (show delimiters.Foremost (.mark mark :: later) from hforemost).1
            rw [hfound]
            exact Option.some_ne_none mark
      have hchunk : chunk.toList.reverse.isEmpty = false := by
        rw [List.isEmpty_reverse, List.isEmpty_eq_false_iff]
        exact hne.1
      rw [List.flatMap_cons, written, delimiters.scan_append_of_quiet hquiet,
        delimiters.scan_eq_scan_pushRun hends, ih hne.2 hlater hforemost]
      simp [Lexeme.pushRun, place, written, hchunk]

/-- Tokens side by side follow each other without a gap. -/
theorem contiguous_place (first : Nat) (tokens : List Token) :
    Contiguous (first + byteLength (tokens.flatMap delimiters.written)) first
      (delimiters.place first tokens) := by
  induction tokens generalizing first with
  | nil => rfl
  | cons token rest ih =>
    refine ⟨rfl, ?_⟩
    rw [List.flatMap_cons, byteLength_append, ← Nat.add_assoc]
    exact ih _

/-- A token has its place where the text is cut in front of what it stands for. -/
theorem exists_cut_of_mem_place {tokens : List Token} {lexeme : Lexeme}
    (hmem : lexeme ∈ delimiters.place 0 tokens) :
    ∃ before right, lexeme.token :: right <:+ tokens ∧
      tokens.flatMap delimiters.written =
        before ++ (delimiters.written lexeme.token ++ right.flatMap delimiters.written) ∧
      lexeme.start = byteLength before ∧
      lexeme.stop = byteLength before + byteLength (delimiters.written lexeme.token) := by
  obtain ⟨left, right, rfl, hstart, hstop⟩ := delimiters.mem_place_iff.mp hmem
  rw [Nat.zero_add] at hstart
  rw [hstart] at hstop
  refine ⟨left.flatMap delimiters.written, right, List.suffix_append left _, ?_, hstart, hstop⟩
  rw [List.flatMap_append, List.flatMap_cons]

/-- Where the text is cut in front of what a token stands for, the token has its place. -/
theorem exists_mem_place_of_suffix {tokens : List Token} {token : Token} {right : List Token}
    (hsuffix : token :: right <:+ tokens) :
    ∃ before, tokens.flatMap delimiters.written =
        before ++ (delimiters.written token ++ right.flatMap delimiters.written) ∧
      ⟨token, byteLength before, byteLength before + byteLength (delimiters.written token)⟩ ∈
        delimiters.place 0 tokens := by
  obtain ⟨left, rfl⟩ := hsuffix
  refine ⟨left.flatMap delimiters.written, ?_, delimiters.mem_place_iff.mpr ?_⟩
  · rw [List.flatMap_append, List.flatMap_cons]
  · exact ⟨left, right, rfl, (Nat.zero_add _).symm, rfl⟩

end Delimiters

namespace Markers

variable {markers : Markers} {text : String} {lexemes : List Lexeme}

section

variable {before run rest after : List Char}

/-- A run is quiet when no mark begins at any offset in it. -/
theorem quiet_iff_not_beginsAt (htext : text.toList = before ++ (run ++ after)) :
    markers.delimiters.Quiet after run ↔ ∀ position, byteLength before ≤ position →
      position < byteLength before + byteLength run →
        ∀ mark : Mark, ¬ Text.BeginsAt (markers.get mark.role) text position := by
  rw [Delimiters.quiet_iff]
  constructor
  · intro hquiet position hle hlt mark hbegins
    obtain ⟨part, behind, hcut, rfl⟩ :=
      Text.exists_split_of_isBoundary htext hbegins.isBoundary hle
    -- The mark begins inside the run, in front of one of its characters.
    rcases List.append_eq_append_iff.mp hcut with ⟨more, rfl, -⟩ | ⟨more, rfl, rfl⟩
    · rw [byteLength_append] at hlt
      omega
    · obtain ⟨c, right, rfl⟩ : ∃ c right, more = c :: right := by
        apply List.exists_cons_of_ne_nil
        rintro rfl
        simp at hlt
      have hnone := markers.delimiters.markAt?_eq_none_iff.mp (hquiet part c right rfl) mark
      have htext' : text.toList = (before ++ part) ++ (c :: (right ++ after)) := by
        rw [htext, hcut]
        simp
      rw [← byteLength_append, Text.beginsAt_byteLength_iff htext', toList_get_role] at hbegins
      exact hnone hbegins
  · rintro hclear left c right rfl
    have htext' : text.toList = (before ++ left) ++ (c :: (right ++ after)) := by
      rw [htext]
      simp
    have hpos := c.utf8Size_pos
    have hplace : byteLength before ≤ byteLength (before ++ left) ∧
        byteLength (before ++ left) < byteLength before + byteLength (left ++ c :: right) := by
      simp only [byteLength_append, byteLength_cons]
      omega
    rw [Delimiters.markAt?_eq_none_iff]
    intro mark hbegins
    apply hclear _ hplace.1 hplace.2 mark
    rwa [Text.beginsAt_byteLength_iff htext', toList_get_role]

/-- A mark is found where it stands when none that has priority over it begins there. -/
theorem markAt?_iff_not_beginsAt (htext : text.toList = before ++ rest) {mark : Mark}
    (hmark : markers.delimiters.chars mark <+: rest) :
    markers.delimiters.markAt? rest = some mark ↔
      ∀ other ∈ mark.before, ¬ Text.BeginsAt (markers.get other.role) text (byteLength before) := by
  rw [Delimiters.markAt?_eq_some_iff, and_iff_right hmark]
  simp only [Text.beginsAt_byteLength_iff htext, toList_get_role]

end

/-- A row of lexemes that follow each other without a gap, with the slices that their tokens stand
for, is its tokens side by side. -/
theorem eq_place_of_contiguous {before rest : List Char} (htext : text.toList = before ++ rest)
    (hcontiguous : Contiguous text.utf8ByteSize (byteLength before) lexemes)
    (hslices : ∀ lexeme ∈ lexemes, lexeme.start < lexeme.stop ∧
      Text.IsBoundary text lexeme.stop ∧ Text.slice text lexeme.start lexeme.stop =
        String.ofList (markers.delimiters.written lexeme.token)) :
    lexemes = markers.delimiters.place (byteLength before) (lexemes.map Lexeme.token) ∧
      (lexemes.map Lexeme.token).flatMap markers.delimiters.written = rest := by
  induction lexemes generalizing before rest with
  | nil =>
    have hlength : byteLength before = byteLength text.toList := by
      rw [← utf8ByteSize_eq_byteLength]
      exact hcontiguous
    rw [htext] at hlength
    exact ⟨rfl, (eq_nil_of_byteLength_append_le (Nat.le_of_eq hlength.symm)).symm⟩
  | cons lexeme later ih =>
    obtain ⟨hstart, hlater⟩ := hcontiguous
    rw [List.forall_mem_cons] at hslices
    obtain ⟨⟨hlt, hboundary, hslice⟩, hslices⟩ := hslices
    obtain ⟨part, after, rfl, hstop⟩ :=
      Text.exists_split_of_isBoundary htext hboundary (by omega)
    rw [hstart, hstop, Text.slice_byteLength htext] at hslice
    obtain rfl := String.ofList_injective hslice
    have htext' : text.toList =
        (before ++ markers.delimiters.written lexeme.token) ++ after := by
      rw [htext, List.append_assoc]
    rw [hstop, ← byteLength_append] at hlater
    obtain ⟨hplace, hwritten⟩ := ih htext' hlater hslices
    constructor
    · rw [List.map_cons, Delimiters.place, ← byteLength_append, ← hplace]
      congr 1
      obtain ⟨token, start, stop⟩ := lexeme
      rw [byteLength_append]
      exact congrArg₂ (Lexeme.mk token) hstart hstop
    · rw [List.map_cons, List.flatMap_cons, hwritten]

/-- A lexeme of a text stands where the text is cut in front of what its token stands for. -/
theorem exists_cut_of_mem_lexemes {lexeme : Lexeme} (hmem : lexeme ∈ markers.lexemes text) :
    ∃ before right, lexeme.token :: right <:+ markers.tokens text ∧ text.toList = before ++
        (markers.delimiters.written lexeme.token ++ right.flatMap markers.delimiters.written) ∧
      lexeme.start = byteLength before ∧
      lexeme.stop = byteLength before + byteLength (markers.delimiters.written lexeme.token) := by
  obtain ⟨hplace, hwritten, -⟩ := markers.lexemes_tile text
  rw [hplace] at hmem
  rw [← hwritten]
  exact markers.delimiters.exists_cut_of_mem_place hmem

/-- The slice at a lexeme holds what its token stands for. -/
theorem slice_of_mem_lexemes {lexeme : Lexeme} (hmem : lexeme ∈ markers.lexemes text) :
    Text.slice text lexeme.start lexeme.stop =
      String.ofList (markers.delimiters.written lexeme.token) := by
  obtain ⟨before, right, -, htext, hstart, hstop⟩ := exists_cut_of_mem_lexemes hmem
  rw [hstart, hstop, Text.slice_byteLength htext]

/-- The lexemes of a text are a tiling of it. -/
theorem tiling_lexemes (markers : Markers) (text : String) :
    markers.Tiling text (markers.lexemes text) where
  contiguous := by
    obtain ⟨hplace, hwritten, -⟩ := markers.lexemes_tile text
    have hcontiguous := markers.delimiters.contiguous_place 0 (markers.tokens text)
    rwa [← hplace, hwritten, Nat.zero_add, ← utf8ByteSize_eq_byteLength] at hcontiguous
  nonempty := by
    intro lexeme hmem
    obtain ⟨-, -, hne, -⟩ := markers.lexemes_tile text
    obtain ⟨before, right, hsuffix, -, hstart, hstop⟩ := exists_cut_of_mem_lexemes hmem
    have hpos := byteLength_pos (hne _ (hsuffix.subset List.mem_cons_self))
    omega
  boundaries := by
    intro lexeme hmem
    obtain ⟨before, right, -, htext, hstart, hstop⟩ := exists_cut_of_mem_lexemes hmem
    refine ⟨Text.isBoundary_iff.mpr ⟨before, _, htext, hstart.symm⟩, ?_⟩
    rw [← List.append_assoc] at htext
    rw [hstop, ← byteLength_append]
    exact Text.isBoundary_iff.mpr ⟨_, _, htext, rfl⟩
  join_slices := by
    obtain ⟨-, hwritten, -⟩ := markers.lexemes_tile text
    rw [List.map_congr_left fun lexeme hmem => slice_of_mem_lexemes hmem]
    apply String.toList_injective
    rw [String.toList_join, ← hwritten, tokens, List.flatMap_map, List.flatMap_map]
    simp only [String.toList_ofList]
  mark_slice := by
    intro mark start stop hmem
    rw [slice_of_mem_lexemes hmem, Delimiters.written, ← toList_get_role, String.ofList_toList]
  mark_first := by
    intro mark start stop hmem
    obtain ⟨-, -, -, -, hforemost⟩ := markers.lexemes_tile text
    obtain ⟨before, right, hsuffix, htext, hstart, -⟩ := exists_cut_of_mem_lexemes hmem
    have hfound := markers.delimiters.foremost_iff.mp hforemost mark right hsuffix
    rw [show start = byteLength before from hstart]
    exact (markAt?_iff_not_beginsAt htext (List.prefix_append _ _)).mp hfound
  run_slice := by
    intro chunk start stop hmem
    rw [slice_of_mem_lexemes hmem, Delimiters.written, String.ofList_toList]
  run_clear := by
    intro chunk start stop hmem
    obtain ⟨-, -, -, hlegible, -⟩ := markers.lexemes_tile text
    obtain ⟨before, right, hsuffix, htext, hstart, hstop⟩ := exists_cut_of_mem_lexemes hmem
    have hquiet := (markers.delimiters.legible_iff.mp hlegible).1 chunk right hsuffix
    rw [show start = byteLength before from hstart,
      show stop = byteLength before + byteLength chunk.toList from hstop]
    exact (quiet_iff_not_beginsAt htext).mp hquiet
  apart := by
    obtain ⟨-, -, -, hlegible, -⟩ := markers.lexemes_tile text
    exact (List.isChain_map Lexeme.token).mp (markers.delimiters.legible_iff.mp hlegible).2

namespace Tiling

variable (htiling : markers.Tiling text lexemes)
include htiling

/-- The slice at a lexeme of a tiling holds what its token stands for. -/
theorem slice_eq {lexeme : Lexeme} (hmem : lexeme ∈ lexemes) :
    Text.slice text lexeme.start lexeme.stop =
      String.ofList (markers.delimiters.written lexeme.token) := by
  obtain ⟨chunk | mark, start, stop⟩ := lexeme
  · rw [htiling.run_slice _ _ _ hmem, Delimiters.written, String.ofList_toList]
  · rw [htiling.mark_slice _ _ _ hmem, Delimiters.written, ← toList_get_role, String.ofList_toList]

/-- A tiling is its tokens side by side, and these stand for the text. -/
theorem eq_place :
    lexemes = markers.delimiters.place 0 (lexemes.map Lexeme.token) ∧
      (lexemes.map Lexeme.token).flatMap markers.delimiters.written = text.toList := by
  apply eq_place_of_contiguous (List.nil_append _).symm htiling.contiguous
  exact fun lexeme hmem =>
    ⟨htiling.nonempty _ hmem, (htiling.boundaries _ hmem).2, htiling.slice_eq hmem⟩

/-- No token of a tiling is empty. -/
theorem written_ne_nil {token : Token} (hmem : token ∈ lexemes.map Lexeme.token) :
    markers.delimiters.written token ≠ [] := by
  obtain ⟨lexeme, hlexeme, rfl⟩ := List.mem_map.mp hmem
  intro hnil
  obtain ⟨hplace, -⟩ := htiling.eq_place
  have hlt := htiling.nonempty _ hlexeme
  rw [hplace] at hlexeme
  obtain ⟨before, right, -, -, hstart, hstop⟩ :=
    markers.delimiters.exists_cut_of_mem_place hlexeme
  rw [hnil, byteLength_nil] at hstop
  omega

/-- The tokens of a tiling can be read back. -/
theorem legible : markers.delimiters.Legible (lexemes.map Lexeme.token) := by
  rw [Delimiters.legible_iff]
  refine ⟨fun chunk right hsuffix => ?_, (List.isChain_map Lexeme.token).mpr htiling.apart⟩
  obtain ⟨hplace, hwritten⟩ := htiling.eq_place
  obtain ⟨before, htext, hmem⟩ := markers.delimiters.exists_mem_place_of_suffix hsuffix
  rw [hwritten] at htext
  rw [← hplace] at hmem
  exact (quiet_iff_not_beginsAt htext).mpr (htiling.run_clear _ _ _ hmem)

/-- The marks of a tiling are the first found. -/
theorem foremost : markers.delimiters.Foremost (lexemes.map Lexeme.token) := by
  rw [Delimiters.foremost_iff]
  intro mark right hsuffix
  obtain ⟨hplace, hwritten⟩ := htiling.eq_place
  obtain ⟨before, htext, hmem⟩ := markers.delimiters.exists_mem_place_of_suffix hsuffix
  rw [hwritten] at htext
  rw [← hplace] at hmem
  rw [List.flatMap_cons]
  exact (markAt?_iff_not_beginsAt htext (List.prefix_append _ _)).mpr
    (htiling.mark_first _ _ _ hmem)

end Tiling

/-- The tokens of a text with their places are a tiling of it, and they are the only one. -/
theorem tiling_iff_eq_lexemes (markers : Markers) (text : String) (lexemes : List Lexeme) :
    markers.Tiling text lexemes ↔ lexemes = markers.lexemes text := by
  constructor
  · intro htiling
    obtain ⟨hplace, hwritten⟩ := htiling.eq_place
    have hscan := markers.delimiters.scan_flatMap_written (fun _ => htiling.written_ne_nil)
      htiling.legible htiling.foremost 0 []
    rw [hwritten, List.reverse_nil, List.nil_append, ← hplace] at hscan
    exact hscan.symm
  · rintro rfl
    exact tiling_lexemes markers text

end Markers

end Spintax
