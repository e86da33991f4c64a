import Spintax.Structure

/-!
# The outline of a text

An outline shows a text as a tree: runs of text, groups with at least one alternative each, and the
separators that stand outside every group. Inside an alternative no separator is left over, since
each of them begins another alternative there.

Reading tokens from the right builds the outline of every text that passes the structure check. The
reading undoes the writing out of tokens, so a text has no other outline.
-/

namespace Spintax

mutual

/-- Runs of text and groups, side by side. -/
inductive Forest where
  | nil
  | text (chunk : String) (rest : Forest)
  | group (alternatives : Alternatives) (rest : Forest)

/-- The alternatives of a group, of which there is at least one. -/
inductive Alternatives where
  | last (forest : Forest)
  | more (forest : Forest) (others : Alternatives)

end

/-- Runs of text, separators outside every group, and groups, side by side. -/
inductive Outline where
  | nil
  | text (chunk : String) (rest : Outline)
  | separator (rest : Outline)
  | group (alternatives : Alternatives) (rest : Outline)

mutual

/-- The tokens of a forest. -/
def Forest.tokens : Forest → List Token
  | .nil => []
  | .text chunk rest => .text chunk :: rest.tokens
  | .group alternatives rest =>
    .mark .opening :: (alternatives.tokens ++ .mark .closing :: rest.tokens)

/-- The tokens of alternatives, with separators between them. -/
def Alternatives.tokens : Alternatives → List Token
  | .last forest => forest.tokens
  | .more forest others => forest.tokens ++ .mark .separator :: others.tokens

end

/-- The tokens of an outline. -/
def Outline.tokens : Outline → List Token
  | .nil => []
  | .text chunk rest => .text chunk :: rest.tokens
  | .separator rest => .mark .separator :: rest.tokens
  | .group alternatives rest =>
    .mark .opening :: (alternatives.tokens ++ .mark .closing :: rest.tokens)

/-- One forest before another. -/
def Forest.append : Forest → Forest → Forest
  | .nil, later => later
  | .text chunk rest, later => .text chunk (rest.append later)
  | .group alternatives rest, later => .group alternatives (rest.append later)

/-- Change the first alternative. -/
def Alternatives.modifyFirst (change : Forest → Forest) : Alternatives → Alternatives
  | .last forest => .last (change forest)
  | .more forest others => .more (change forest) others

/-- Nothing behind a forest leaves it as it is. -/
theorem Forest.append_nil : (forest : Forest) → forest.append .nil = forest
  | .nil => rfl
  | .text chunk rest => by rw [append, append_nil rest]
  | .group alternatives rest => by rw [append, append_nil rest]

/-- Two changes of the first alternative are one change. -/
theorem Alternatives.modifyFirst_modifyFirst (outer inner : Forest → Forest) (a : Alternatives) :
    (a.modifyFirst inner).modifyFirst outer = a.modifyFirst (outer ∘ inner) := by
  cases a <;> rfl

/-- The identity leaves the alternatives as they are. -/
theorem Alternatives.modifyFirst_id (a : Alternatives) : a.modifyFirst id = a := by
  cases a <;> rfl

/-- What has been read of a text from the right: for each group whose closing marker has been met and
whose opening marker has not, innermost first, what is known of its alternatives; and the outline
behind them all. -/
structure Suffix where
  pending : List Alternatives := []
  outline : Outline := .nil

namespace Suffix

/-- Read the token in front of a suffix. An opening marker that closes no group is passed over. -/
def absorb (token : Token) (suffix : Suffix) : Suffix :=
  match token, suffix with
  | .text chunk, ⟨[], outline⟩ => ⟨[], .text chunk outline⟩
  | .text chunk, ⟨first :: outer, outline⟩ => ⟨first.modifyFirst (.text chunk) :: outer, outline⟩
  | .mark .opening, ⟨[], outline⟩ => ⟨[], outline⟩
  | .mark .opening, ⟨[alternatives], outline⟩ => ⟨[], .group alternatives outline⟩
  | .mark .opening, ⟨alternatives :: first :: outer, outline⟩ =>
    ⟨first.modifyFirst (.group alternatives) :: outer, outline⟩
  | .mark .separator, ⟨[], outline⟩ => ⟨[], .separator outline⟩
  | .mark .separator, ⟨first :: outer, outline⟩ => ⟨.more .nil first :: outer, outline⟩
  | .mark .closing, ⟨pending, outline⟩ => ⟨.last .nil :: pending, outline⟩

/-- Read tokens from the right. -/
def ofTokens (tokens : List Token) : Suffix :=
  tokens.foldr absorb {}

/-- The tokens that have been read. -/
def tokens (suffix : Suffix) : List Token :=
  suffix.pending.flatMap (fun first => first.tokens ++ [.mark .closing]) ++ suffix.outline.tokens

/-- A chunk in front of the first alternative comes first among the tokens. -/
theorem tokens_modifyFirst_text (chunk : String) (first : Alternatives) :
    (first.modifyFirst (.text chunk)).tokens = .text chunk :: first.tokens := by
  cases first <;> simp [Alternatives.modifyFirst, Alternatives.tokens, Forest.tokens]

/-- A group in front of the first alternative comes first among the tokens. -/
theorem tokens_modifyFirst_group (alternatives first : Alternatives) :
    (first.modifyFirst (.group alternatives)).tokens =
      .mark .opening :: (alternatives.tokens ++ .mark .closing :: first.tokens) := by
  cases first <;> simp [Alternatives.modifyFirst, Alternatives.tokens, Forest.tokens]

/-- Absorbing a token puts it in front of those that have been read, provided that an opening marker
has a group to open. -/
theorem tokens_absorb {token : Token} {suffix : Suffix}
    (hopening : token = .mark .opening → suffix.pending ≠ []) :
    (suffix.absorb token).tokens = token :: suffix.tokens := by
  obtain ⟨pending, outline⟩ := suffix
  cases token with
  | text chunk =>
    cases pending with
    | nil => rfl
    | cons first outer => simp [absorb, tokens, tokens_modifyFirst_text]
  | mark mark =>
    cases mark with
    | opening =>
      match pending with
      | [] => exact absurd rfl (hopening rfl)
      | [alternatives] => simp [absorb, tokens, Outline.tokens]
      | alternatives :: first :: outer => simp [absorb, tokens, tokens_modifyFirst_group]
    | separator =>
      cases pending with
      | nil => rfl
      | cons first outer => simp [absorb, tokens, Alternatives.tokens, Forest.tokens]
    | closing => simp [absorb, tokens, Alternatives.tokens, Forest.tokens]

/-- A closing marker adds a group that lacks its opening marker, and an opening marker takes one. -/
theorem length_pending_absorb (token : Token) (suffix : Suffix) :
    (suffix.absorb token).pending.length =
      match token with
      | .mark .opening => suffix.pending.length - 1
      | .mark .closing => suffix.pending.length + 1
      | _ => suffix.pending.length := by
  obtain ⟨_ | ⟨first, _ | ⟨second, outer⟩⟩, outline⟩ := suffix <;>
    obtain chunk | _ | _ | _ := token <;> rfl

/-- Behind opening markers that are unpaired, lexemes that pass the structure check are read back
without loss, and as many groups lack their opening marker as are unpaired. -/
theorem tokens_ofTokens_of_check {unpaired : List Nat} {lexemes : List Lexeme}
    (hsound : checkLexemes unpaired lexemes = .ok ()) :
    (ofTokens (lexemes.map Lexeme.token)).pending.length = unpaired.length ∧
      (ofTokens (lexemes.map Lexeme.token)).tokens = lexemes.map Lexeme.token := by
  induction lexemes generalizing unpaired with
  | nil =>
    cases unpaired with
    | nil => exact ⟨rfl, rfl⟩
    | cons start outer => simp [checkLexemes, List.getLast?_cons] at hsound
  | cons lexeme rest ih =>
    obtain ⟨token, start, stop⟩ := lexeme
    change ((ofTokens (rest.map Lexeme.token)).absorb token).pending.length = unpaired.length ∧
      ((ofTokens (rest.map Lexeme.token)).absorb token).tokens = token :: rest.map Lexeme.token
    rw [length_pending_absorb]
    cases token with
    | text chunk =>
      have hrest : checkLexemes unpaired rest = .ok () := by cases unpaired <;> exact hsound
      obtain ⟨hlength, htokens⟩ := ih hrest
      exact ⟨hlength, by rw [tokens_absorb (by simp), htokens]⟩
    | mark mark =>
      cases mark with
      | opening =>
        have hrest : checkLexemes (start :: unpaired) rest = .ok () := by
          cases unpaired <;> exact hsound
        obtain ⟨hlength, htokens⟩ := ih hrest
        refine ⟨by simp [hlength], ?_⟩
        rw [tokens_absorb (fun _ hnil => by simp [hnil] at hlength), htokens]
      | separator =>
        have hrest : checkLexemes unpaired rest = .ok () := by cases unpaired <;> exact hsound
        obtain ⟨hlength, htokens⟩ := ih hrest
        exact ⟨hlength, by rw [tokens_absorb (by simp), htokens]⟩
      | closing =>
        cases unpaired with
        | nil => simp [checkLexemes] at hsound
        | cons first outer =>
          have hrest : checkLexemes outer rest = .ok () := hsound
          obtain ⟨hlength, htokens⟩ := ih hrest
          exact ⟨by simp [hlength], by rw [tokens_absorb (by simp), htokens]⟩

end Suffix

mutual

/-- Reading the tokens of a forest in front of an open group puts the forest in front of its first
alternative. -/
theorem Forest.foldr_tokens : (forest : Forest) → (first : Alternatives) →
    (outer : List Alternatives) → (outline : Outline) →
    forest.tokens.foldr Suffix.absorb ⟨first :: outer, outline⟩ =
      ⟨first.modifyFirst forest.append :: outer, outline⟩
  | .nil, first, outer, outline => by
    have happend : Forest.nil.append = id := rfl
    rw [happend, first.modifyFirst_id]
    rfl
  | .text chunk rest, first, outer, outline => by
    rw [Forest.tokens, List.foldr_cons, rest.foldr_tokens]
    simp only [Suffix.absorb, Alternatives.modifyFirst_modifyFirst]
    rfl
  | .group alternatives rest, first, outer, outline => by
    rw [Forest.tokens, List.foldr_cons, List.foldr_append, List.foldr_cons, rest.foldr_tokens,
      alternatives.foldr_tokens]
    simp only [Suffix.absorb, Alternatives.modifyFirst_modifyFirst]
    rfl

/-- Reading the tokens of alternatives behind their closing marker gives these alternatives. -/
theorem Alternatives.foldr_tokens : (alternatives : Alternatives) →
    (pending : List Alternatives) → (outline : Outline) →
    alternatives.tokens.foldr Suffix.absorb (Suffix.absorb (.mark .closing) ⟨pending, outline⟩) =
      ⟨alternatives :: pending, outline⟩
  | .last forest, pending, outline => by
    rw [Alternatives.tokens, Suffix.absorb, forest.foldr_tokens, Alternatives.modifyFirst,
      forest.append_nil]
  | .more forest others, pending, outline => by
    rw [Alternatives.tokens, List.foldr_append, List.foldr_cons, others.foldr_tokens,
      Suffix.absorb, forest.foldr_tokens, Alternatives.modifyFirst, forest.append_nil]

end

/-- Reading the tokens of an outline gives the outline back. -/
theorem Suffix.ofTokens_tokens (outline : Outline) : ofTokens outline.tokens = ⟨[], outline⟩ := by
  induction outline with
  | nil => rfl
  | text chunk rest ih =>
    change (ofTokens rest.tokens).absorb (.text chunk) = _
    rw [ih]
    rfl
  | separator rest ih =>
    change (ofTokens rest.tokens).absorb (.mark .separator) = _
    rw [ih]
    rfl
  | group alternatives rest ih =>
    rw [ofTokens, Outline.tokens, List.foldr_cons, List.foldr_append, List.foldr_cons]
    change Suffix.absorb _ (alternatives.tokens.foldr _ (Suffix.absorb _ (ofTokens rest.tokens))) = _
    rw [ih, alternatives.foldr_tokens]
    rfl

/-- Outlines with the same tokens are the same. -/
theorem Outline.tokens_injective {first second : Outline} (heq : first.tokens = second.tokens) :
    first = second := by
  have := congrArg Suffix.ofTokens heq
  rw [Suffix.ofTokens_tokens, Suffix.ofTokens_tokens] at this
  exact congrArg Suffix.outline this

/-- Lexemes that pass the structure check are the tokens of an outline. -/
theorem Outline.exists_tokens_eq {lexemes : List Lexeme}
    (hsound : checkLexemes [] lexemes = .ok ()) :
    ∃ outline : Outline, outline.tokens = lexemes.map Lexeme.token := by
  obtain ⟨hlength, htokens⟩ := Suffix.tokens_ofTokens_of_check hsound
  refine ⟨(Suffix.ofTokens (lexemes.map Lexeme.token)).outline, ?_⟩
  rw [Suffix.tokens, List.eq_nil_of_length_eq_zero hlength] at htokens
  exact htokens

end Spintax
