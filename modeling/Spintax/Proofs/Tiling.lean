import Spintax.Token

/-!
# The tokens of a text tile it

Laying tokens side by side gives each of them a place. The lexemes of a text are its tokens laid side
by side from byte zero, the characters they stand for are the text, and no token is empty. So places
are slices of the text, and they begin further and further right.

A run of text holds no mark: none is found at any of its characters, with the text behind it in view.
It is followed by a mark or by nothing. A mark is the first, in the order of trial, that is found where
it stands.
-/

namespace Spintax

/-- No characters have no bytes. -/
@[simp]
theorem byteLength_nil : byteLength [] = 0 := rfl

/-- The bytes of the first character are counted, and then the others. -/
theorem byteLength_cons (c : Char) (cs : List Char) :
    byteLength (c :: cs) = c.utf8Size + byteLength cs := rfl

/-- The bytes of two parts add up. -/
theorem byteLength_append (left right : List Char) :
    byteLength (left ++ right) = byteLength left + byteLength right := by
  induction left with
  | nil => simp
  | cons c left ih => rw [List.cons_append, byteLength_cons, byteLength_cons, ih, Nat.add_assoc]

/-- The order of characters does not matter for their bytes. -/
theorem byteLength_reverse (cs : List Char) : byteLength cs.reverse = byteLength cs := by
  induction cs with
  | nil => rfl
  | cons c cs ih =>
    rw [List.reverse_cons, byteLength_append, byteLength_cons, byteLength_cons, byteLength_nil, ih,
      Nat.add_zero, Nat.add_comm]

/-- Every character takes a byte at least. -/
theorem length_le_byteLength (cs : List Char) : cs.length ≤ byteLength cs := by
  induction cs with
  | nil => exact Nat.le_refl 0
  | cons c cs ih =>
    have := c.utf8Size_pos
    rw [List.length_cons, byteLength_cons]
    omega

/-- Characters have bytes. -/
theorem byteLength_pos {cs : List Char} (hne : cs ≠ []) : 0 < byteLength cs := by
  obtain ⟨c, rest, rfl⟩ := List.exists_cons_of_ne_nil hne
  have := c.utf8Size_pos
  rw [byteLength_cons]
  omega

namespace Delimiters

/-- The characters that a token stands for. -/
def written (delimiters : Delimiters) : Token → List Char
  | .text chunk => chunk.toList
  | .mark mark => delimiters.chars mark

/-- The tokens side by side, the first of them at byte `offset`. -/
def place (delimiters : Delimiters) (offset : Nat) : List Token → List Lexeme
  | [] => []
  | token :: rest =>
    let stop := offset + byteLength (delimiters.written token)
    ⟨token, offset, stop⟩ :: delimiters.place stop rest

variable (delimiters : Delimiters)

/-- Tokens behind others are placed where those end. -/
theorem place_append (offset : Nat) (left right : List Token) :
    delimiters.place offset (left ++ right) = delimiters.place offset left ++
      delimiters.place (offset + byteLength (left.flatMap delimiters.written)) right := by
  induction left generalizing offset with
  | nil => simp [place, byteLength]
  | cons token rest ih =>
    simp [place, ih, byteLength_append, Nat.add_assoc]

/-- Laying tokens side by side does not change them. -/
theorem map_token_place (offset : Nat) (tokens : List Token) :
    (delimiters.place offset tokens).map Lexeme.token = tokens := by
  induction tokens generalizing offset with
  | nil => rfl
  | cons token rest ih => simp [place, ih]

/-- Tokens laid side by side have their places behind what the tokens before them stand for. -/
theorem mem_place_iff {offset : Nat} {tokens : List Token} {lexeme : Lexeme} :
    lexeme ∈ delimiters.place offset tokens ↔ ∃ left right, tokens = left ++ lexeme.token :: right ∧
      lexeme.start = offset + byteLength (left.flatMap delimiters.written) ∧
      lexeme.stop = lexeme.start + byteLength (delimiters.written lexeme.token) := by
  constructor
  · intro hmem
    induction tokens generalizing offset with
    | nil => simp [place] at hmem
    | cons token rest ih =>
      rw [place, List.mem_cons] at hmem
      rcases hmem with rfl | hmem
      · exact ⟨[], rest, rfl, rfl, rfl⟩
      · obtain ⟨left, right, rfl, hstart, hstop⟩ := ih hmem
        refine ⟨token :: left, right, rfl, ?_, hstop⟩
        rw [hstart, List.flatMap_cons, byteLength_append, Nat.add_assoc]
  · rintro ⟨left, right, rfl, hstart, hstop⟩
    obtain ⟨token, start, stop⟩ := lexeme
    simp only at hstart hstop
    rw [place_append, place, ← hstart, ← hstop]
    exact List.mem_append_right _ List.mem_cons_self

/-- A lexeme holds a slice of the characters: what stands before it fills the bytes up to its start,
and what it stands for fills the bytes from there to its stop. -/
def Covers (lexeme : Lexeme) (cs : List Char) : Prop :=
  ∃ before after, cs = before ++ delimiters.written lexeme.token ++ after ∧
    byteLength before = lexeme.start ∧
    byteLength (before ++ delimiters.written lexeme.token) = lexeme.stop

/-- Tokens laid side by side cover what they stand for. -/
theorem covers_of_mem_place (tokens : List Token) {lexeme : Lexeme}
    (hmem : lexeme ∈ delimiters.place 0 tokens) :
    delimiters.Covers lexeme (tokens.flatMap delimiters.written) := by
  obtain ⟨left, right, rfl, hstart, hstop⟩ := delimiters.mem_place_iff.mp hmem
  rw [Nat.zero_add] at hstart
  refine ⟨left.flatMap delimiters.written, right.flatMap delimiters.written, ?_, hstart.symm, ?_⟩
  · rw [List.flatMap_append, List.flatMap_cons, List.append_assoc]
  · rw [byteLength_append, hstop, hstart]

/-- Places begin at the offset or later. -/
theorem le_start_of_mem_place {offset : Nat} {tokens : List Token} {lexeme : Lexeme}
    (hmem : lexeme ∈ delimiters.place offset tokens) : offset ≤ lexeme.start := by
  obtain ⟨left, right, -, hstart, -⟩ := delimiters.mem_place_iff.mp hmem
  exact hstart ▸ Nat.le_add_right offset _

/-- Tokens that are not empty begin further and further right. -/
theorem pairwise_start_place (offset : Nat) {tokens : List Token}
    (hne : ∀ token ∈ tokens, delimiters.written token ≠ []) :
    (delimiters.place offset tokens).Pairwise (fun a b => a.start < b.start) := by
  induction tokens generalizing offset with
  | nil => exact .nil
  | cons token rest ih =>
    rw [List.forall_mem_cons] at hne
    refine List.pairwise_cons.mpr ⟨fun lexeme hmem => ?_, ih _ hne.2⟩
    have hstart := delimiters.le_start_of_mem_place hmem
    have hpos := byteLength_pos hne.1
    exact Nat.lt_of_lt_of_le (Nat.lt_add_of_pos_right hpos) hstart

/-- The token of a run of characters given last one first, if there are any. -/
def runTokens (run : List Char) : List Token :=
  if run.isEmpty then [] else [.text (String.ofList run.reverse)]

/-- The token of a run is written as its characters, which are kept in reverse. -/
theorem flatMap_runTokens (run : List Char) :
    (runTokens run).flatMap delimiters.written = run.reverse := by
  cases run <;> simp [runTokens, written]

/-- A run that is pushed is placed behind what was found. -/
theorem reverse_pushRun {start here : Nat} {run : List Char} (found : List Lexeme)
    (hhere : here = start + byteLength run) :
    (Lexeme.pushRun start here run found).reverse =
      found.reverse ++ delimiters.place start (runTokens run) := by
  cases run with
  | nil => simp [Lexeme.pushRun, runTokens, place]
  | cons c cs =>
    have hlength := byteLength_reverse (c :: cs)
    rw [List.reverse_cons] at hlength
    simp [Lexeme.pushRun, runTokens, place, written, hlength, hhere]

/-- The token of a run is never written as nothing. -/
theorem written_ne_nil_of_mem_runTokens {run : List Char} {token : Token}
    (hmem : token ∈ runTokens run) : delimiters.written token ≠ [] := by
  cases run <;> simp_all [runTokens, written]

/-- A mark that is found stands at the beginning. -/
theorem chars_prefix_of_markAt? {cs : List Char} {mark : Mark}
    (hmark : delimiters.markAt? cs = some mark) : delimiters.chars mark <+: cs := by
  simpa using List.find?_some hmark

/-- No mark is found at any character of a run, when it is followed by the characters of `after`. -/
def Quiet (after : List Char) : List Char → Prop
  | [] => True
  | c :: run => delimiters.markAt? (c :: (run ++ after)) = none ∧ Quiet after run

/-- Tokens that can be read back: no mark is found in a run of text, and none is followed by another
run. -/
def Legible : List Token → Prop
  | [] => True
  | .mark _ :: rest => Legible rest
  | .text chunk :: rest =>
    delimiters.Quiet (rest.flatMap delimiters.written) chunk.toList ∧
      (∀ later, rest.head? ≠ some (.text later)) ∧ Legible rest

/-- Every mark among the tokens is the first that is found where it stands. -/
def Foremost : List Token → Prop
  | [] => True
  | .text _ :: rest => Foremost rest
  | .mark mark :: rest =>
    delimiters.markAt? ((Token.mark mark :: rest).flatMap delimiters.written) = some mark ∧
      Foremost rest

/-- A run in front does not matter for where marks come first. -/
theorem foremost_runTokens_append {run : List Char} {rest : List Token} :
    delimiters.Foremost (runTokens run ++ rest) ↔ delimiters.Foremost rest := by
  cases run <;> rfl

/-- Two parts are quiet when the first is, in front of the second, and the second is. -/
theorem quiet_append {after left right : List Char} :
    delimiters.Quiet after (left ++ right) ↔
      delimiters.Quiet (right ++ after) left ∧ delimiters.Quiet after right := by
  induction left with
  | nil => simp [Quiet]
  | cons c left ih => rw [List.cons_append, Quiet, Quiet, ih, List.append_assoc, and_assoc]

/-- No mark is a part of a quiet run. -/
theorem Quiet.not_isInfix {after run : List Char} (hquiet : delimiters.Quiet after run) (mark : Mark) :
    ¬ delimiters.chars mark <:+: run := by
  induction run with
  | nil => simpa using delimiters.chars_ne_nil mark
  | cons c run ih =>
    obtain ⟨hnone, hrest⟩ := hquiet
    rw [List.infix_cons_iff, not_or]
    refine ⟨fun hbegins => ?_, ih hrest⟩
    have hmark := List.find?_eq_none.mp hnone mark (by cases mark <;> decide)
    rw [List.isPrefixOf_iff_prefix, ← List.cons_append] at hmark
    exact hmark (hbegins.trans (List.prefix_append _ after))

/-- Every run among tokens that can be read back is quiet in front of something. -/
theorem Legible.quiet_of_mem {tokens : List Token} (hlegible : delimiters.Legible tokens)
    {chunk : String} (hmem : .text chunk ∈ tokens) :
    ∃ after, delimiters.Quiet after chunk.toList := by
  induction tokens with
  | nil => simp at hmem
  | cons token rest ih =>
    cases token with
    | mark mark => exact ih hlegible (by simpa using hmem)
    | text first =>
      obtain ⟨hquiet, -, hrest⟩ := hlegible
      rcases List.mem_cons.mp hmem with heq | hmem
      · obtain rfl := Token.text.inj heq
        exact ⟨_, hquiet⟩
      · exact ih hrest hmem

/-- In front of tokens that begin with a mark, if there are any, a quiet run can be read back. -/
theorem legible_runTokens_append {run : List Char} {rest : List Token}
    (hquiet : delimiters.Quiet (rest.flatMap delimiters.written) run.reverse)
    (hrest : delimiters.Legible rest) (hhead : ∀ later, rest.head? ≠ some (.text later)) :
    delimiters.Legible (runTokens run ++ rest) := by
  cases run with
  | nil => exact hrest
  | cons c cs =>
    refine ⟨?_, hhead, hrest⟩
    rwa [String.toList_ofList]

/-- What a scan adds to the lexemes found before is a row of tokens that are not empty, laid side by
side from the start of the run in progress, and that stand for this run and the characters ahead. If
the run in progress is quiet, these tokens can be read back, and their marks are the first found. -/
theorem exists_scan_eq_place (start here : Nat) (run : List Char) (found : List Lexeme)
    (cs : List Char) (hhere : here = start + byteLength run)
    (hquiet : delimiters.Quiet cs run.reverse) :
    ∃ tokens, delimiters.scan start here run found cs =
        found.reverse ++ delimiters.place start tokens ∧
      tokens.flatMap delimiters.written = run.reverse ++ cs ∧
      (∀ token ∈ tokens, delimiters.written token ≠ []) ∧ delimiters.Legible tokens ∧
      delimiters.Foremost tokens := by
  induction start, here, run, found, cs using Delimiters.scan.induct delimiters with
  | case1 start here run found =>
    have hlegible : delimiters.Legible (runTokens run ++ []) :=
      delimiters.legible_runTokens_append hquiet trivial (by simp)
    rw [List.append_nil] at hlegible
    have hforemost : delimiters.Foremost (runTokens run ++ []) :=
      delimiters.foremost_runTokens_append.mpr trivial
    rw [List.append_nil] at hforemost
    refine ⟨runTokens run, ?_, ?_, fun _ => delimiters.written_ne_nil_of_mem_runTokens, hlegible,
      hforemost⟩
    · rw [scan, delimiters.reverse_pushRun found hhere]
    · rw [delimiters.flatMap_runTokens, List.append_nil]
  | case2 start here run found c cs mark hmark stop ih =>
    obtain ⟨tokens, hscan, hwritten, hne, hlegible, hforemost⟩ := ih (by simp [byteLength]) trivial
    obtain ⟨rest, hrest⟩ := delimiters.chars_prefix_of_markAt? hmark
    have hmarked : (Token.mark mark :: tokens).flatMap delimiters.written = c :: cs := by
      rw [List.flatMap_cons, hwritten, ← hrest]
      simp [written]
    refine ⟨runTokens run ++ .mark mark :: tokens, ?_, ?_, ?_,
      delimiters.legible_runTokens_append (by rwa [hmarked]) hlegible (by simp),
      delimiters.foremost_runTokens_append.mpr ⟨by rwa [hmarked], hforemost⟩⟩
    · rw [scan]
      simp only [hmark]
      rw [hscan, List.reverse_cons, delimiters.reverse_pushRun found hhere,
        place_append, flatMap_runTokens, byteLength_reverse, ← hhere]
      simp [place, written, stop]
    · rw [List.flatMap_append, flatMap_runTokens, hmarked]
    · intro token hmem
      rw [List.mem_append, List.mem_cons] at hmem
      rcases hmem with hmem | rfl | hmem
      · exact delimiters.written_ne_nil_of_mem_runTokens hmem
      · exact delimiters.chars_ne_nil mark
      · exact hne token hmem
  | case3 start here run found c cs hmark ih =>
    have hlonger : delimiters.Quiet cs (c :: run).reverse := by
      rw [List.reverse_cons, quiet_append]
      exact ⟨hquiet, hmark, trivial⟩
    obtain ⟨tokens, hscan, hwritten, hne⟩ := ih (by rw [hhere, byteLength_cons]; omega) hlonger
    refine ⟨tokens, ?_, ?_, hne⟩
    · rw [scan]
      simp only [hmark]
      exact hscan
    · simpa using hwritten

end Delimiters

namespace Markers

/-- The characters of a mark are those of the marker in its role. -/
theorem toList_get_role {markers : Markers} (mark : Mark) :
    (markers.get mark.role).toList = markers.delimiters.chars mark := by
  cases mark <;> rfl

variable (markers : Markers) (text : String)

/-- The tokens of a text without their places. -/
def tokens : List Token :=
  (markers.lexemes text).map Lexeme.token

/-- The lexemes of a text are its tokens laid side by side; they are not empty and stand for it, they
can be read back, and their marks are the first found. -/
theorem lexemes_tile :
    markers.lexemes text = markers.delimiters.place 0 (markers.tokens text) ∧
      (markers.tokens text).flatMap markers.delimiters.written = text.toList ∧
      (∀ token ∈ markers.tokens text, markers.delimiters.written token ≠ []) ∧
      markers.delimiters.Legible (markers.tokens text) ∧
      markers.delimiters.Foremost (markers.tokens text) := by
  obtain ⟨tokens, hscan, hwritten, hne⟩ :=
    markers.delimiters.exists_scan_eq_place 0 0 [] [] text.toList (by simp [byteLength]) trivial
  have htokens : markers.tokens text = tokens := by
    rw [Markers.tokens, lexemes, hscan]
    exact markers.delimiters.map_token_place 0 tokens
  rw [htokens, lexemes, hscan]
  exact ⟨rfl, hwritten, hne⟩

/-- Every lexeme of a text covers the slice between its offsets. -/
theorem covers_of_mem_lexemes {lexeme : Lexeme} (hmem : lexeme ∈ markers.lexemes text) :
    markers.delimiters.Covers lexeme text.toList := by
  obtain ⟨hplace, hwritten, -⟩ := markers.lexemes_tile text
  rw [hplace] at hmem
  have := markers.delimiters.covers_of_mem_place _ hmem
  rwa [hwritten] at this

/-- The lexemes of a text begin further and further right. -/
theorem pairwise_start_lexemes :
    (markers.lexemes text).Pairwise (fun a b => a.start < b.start) := by
  obtain ⟨hplace, -, hne, -⟩ := markers.lexemes_tile text
  rw [hplace]
  exact markers.delimiters.pairwise_start_place 0 hne

end Markers

end Spintax
