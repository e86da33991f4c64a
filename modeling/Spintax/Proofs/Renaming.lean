import Mathlib.Algebra.Group.End
import Mathlib.Data.List.Infix
import Mathlib.Data.List.Nodup
import Spintax.Proofs.Reading
import Spintax.Proofs.Tiling
import Spintax.Spinner

/-!
# Renaming characters

A renaming exchanges characters one for one, in the template, in the names and values of the table
and in all four markers. No function of the library looks at a character but to tell whether it is
equal to another one. So each of them gives the renamed answer for the renamed input: the tokens,
the search and the replacement of a text, and the references with their audit.

Characters differ in how many bytes they take, so places do not stay the same. Two places correspond
when they point at the same character, counted from the beginning.
-/

namespace Spintax

/-- A permutation of the characters. -/
abbrev Renaming := Equiv.Perm Char

namespace Renaming

variable (f : Renaming)

/-- Renaming goes through to the parts of a text. -/
theorem map_append (left right : String) : (left ++ right).map f = left.map f ++ right.map f := by
  apply String.toList_injective
  simp

/-- Renaming goes through to the characters of a text. -/
theorem map_ofList (cs : List Char) : (String.ofList cs).map f = String.ofList (cs.map f) := by
  apply String.toList_injective
  simp

/-- Renaming goes through to the last character of a text. -/
theorem map_push (text : String) (c : Char) : (text.push c).map f = (text.map f).push (f c) := by
  apply String.toList_injective
  simp

/-- Texts that are renamed alike are the same. -/
theorem map_injective : Function.Injective (String.map f) := by
  intro left right heq
  have hlists := congrArg String.toList heq
  rw [String.toList_map, String.toList_map] at hlists
  exact String.toList_injective (List.map_injective_iff.mpr f.injective hlists)

/-- The empty text is renamed to itself. -/
theorem map_empty : "".map f = "" := by
  apply String.toList_injective
  simp

/-- A text that is not empty is not renamed to the empty one. -/
theorem map_ne_empty {text : String} (hne : text ≠ "") : text.map f ≠ "" := by
  intro heq
  exact hne (f.map_injective (heq.trans f.map_empty.symm))

/-- Renamed characters begin with the renamed ones just when they began with them. -/
theorem isPrefixOf_map (left right : List Char) :
    (left.map f).isPrefixOf (right.map f) = left.isPrefixOf right := by
  rw [Bool.eq_iff_iff, List.isPrefixOf_iff_prefix, List.isPrefixOf_iff_prefix,
    List.prefix_map_iff_of_injective f.injective]

/-- The renamed pattern occurs where the pattern does. -/
theorem occurs_map (pattern cs : List Char) :
    Text.occurs (pattern.map f) (cs.map f) = Text.occurs pattern cs := by
  induction cs with
  | nil => simp [Text.occurs]
  | cons c cs ih =>
    rw [List.map_cons, Text.occurs, Text.occurs, ← List.map_cons, isPrefixOf_map, ih]

/-- A renamed pattern occurs in a renamed text just when the pattern occurs in the text. -/
theorem occursIn_map (pattern text : String) :
    occursIn (pattern.map f) (text.map f) = occursIn pattern text := by
  rw [occursIn, occursIn, String.toList_map, String.toList_map, occurs_map]

/-- The renamed replacement is written where the replacement is. -/
theorem replaceFrom_map (pattern : List Char) (replacement written : String) (cs : List Char) :
    Text.replaceFrom (pattern.map f) (replacement.map f) (written.map f) (cs.map f) =
      (Text.replaceFrom pattern replacement written cs).map f := by
  induction written, cs using Text.replaceFrom.induct pattern replacement with
  | case1 written => simp [Text.replaceFrom]
  | case2 written c cs hbegins ih =>
    have hbegins' : (pattern.map f).isPrefixOf (f c :: cs.map f) = true := by
      rwa [← List.map_cons, isPrefixOf_map]
    rw [Text.replaceFrom, if_pos hbegins, List.map_cons, Text.replaceFrom, if_pos hbegins',
      List.length_map, ← List.map_drop, ← map_append, ih]
  | case3 written c cs hbegins ih =>
    have hbegins' : ¬ (pattern.map f).isPrefixOf (f c :: cs.map f) = true := by
      rwa [← List.map_cons, isPrefixOf_map]
    rw [Text.replaceFrom, if_neg hbegins, List.map_cons, Text.replaceFrom, if_neg hbegins', ← ih,
      map_push]

/-- Replacing commutes with renaming. -/
theorem replaceAll_map (pattern replacement text : String) :
    replaceAll (pattern.map f) (replacement.map f) (text.map f) =
      (replaceAll pattern replacement text).map f := by
  rw [replaceAll, replaceAll, String.toList_map, String.toList_map, ← replaceFrom_map, map_empty]

end Renaming

/-- Rename the text of a token. -/
def Token.rename (f : Renaming) : Token → Token
  | .text chunk => .text (chunk.map f)
  | .mark kind => .mark kind

/-- Rename all marks. -/
def Delimiters.rename (delimiters : Delimiters) (f : Renaming) : Delimiters where
  opening := delimiters.opening.map f
  closing := delimiters.closing.map f
  separator := delimiters.separator.map f
  opening_ne_nil := mt List.map_eq_nil_iff.mp delimiters.opening_ne_nil
  closing_ne_nil := mt List.map_eq_nil_iff.mp delimiters.closing_ne_nil
  separator_ne_nil := mt List.map_eq_nil_iff.mp delimiters.separator_ne_nil

/-- Rename all markers. -/
def Markers.rename (markers : Markers) (f : Renaming) : Markers where
  texts := .ofRoles fun role => (markers.get role).map f
  nonempty role := by
    rw [MarkerTexts.get_ofRoles]
    exact f.map_ne_empty (markers.get_ne_empty role)

/-- Rename all names and values. -/
def Table.rename (table : Table) (f : Renaming) : Table where
  entries := table.entries.map fun entry => (entry.1.map f, entry.2.map f)
  nodup := by
    have hnames := List.Nodup.map f.map_injective table.nodup
    rw [Entries.names, List.map_map] at hnames ⊢
    exact hnames

/-- Rename a template with its table and its markers. -/
def Spinner.rename (spinner : Spinner) (f : Renaming) : Spinner where
  template := spinner.template.map f
  placeholders := spinner.placeholders.rename f
  markers := spinner.markers.rename f

section

variable (f : Renaming)

namespace Delimiters

variable (delimiters : Delimiters)

/-- The characters of a renamed mark are the renamed ones. -/
@[simp] theorem chars_rename (mark : Mark) :
    (delimiters.rename f).chars mark = (delimiters.chars mark).map f := by
  cases mark <;> rfl

/-- A renamed token is written with the renamed characters. -/
@[simp] theorem written_rename (token : Token) :
    (delimiters.rename f).written (token.rename f) = (delimiters.written token).map f := by
  cases token <;> simp [written, Token.rename]

/-- The same mark is found. -/
theorem markAt?_rename (cs : List Char) :
    (delimiters.rename f).markAt? (cs.map f) = delimiters.markAt? cs := by
  simp only [markAt?, chars_rename, Renaming.isPrefixOf_map]

/-- Pushing a renamed run makes the renamed tokens, wherever it stands. -/
theorem map_token_pushRun_rename (start start' stop stop' : Nat) (run : List Char)
    {found found' : List Lexeme}
    (hfound : found'.map Lexeme.token = (found.map Lexeme.token).map (Token.rename f)) :
    (Lexeme.pushRun start' stop' (run.map f) found').map Lexeme.token =
      ((Lexeme.pushRun start stop run found).map Lexeme.token).map (Token.rename f) := by
  cases run with
  | nil => simpa [Lexeme.pushRun] using hfound
  | cons c run =>
    simp only [Lexeme.pushRun, List.map_cons, List.isEmpty_cons, if_neg Bool.false_ne_true, hfound,
      Token.rename, Renaming.map_ofList]
    rw [List.map_reverse, List.map_cons]

/-- A scan of renamed characters finds the renamed tokens, wherever it begins. -/
theorem map_token_scan_rename (start start' here here' : Nat) (run : List Char)
    (found found' : List Lexeme) (cs : List Char)
    (hfound : found'.map Lexeme.token = (found.map Lexeme.token).map (Token.rename f)) :
    ((delimiters.rename f).scan start' here' (run.map f) found' (cs.map f)).map Lexeme.token =
      ((delimiters.scan start here run found cs).map Lexeme.token).map (Token.rename f) := by
  induction start, here, run, found, cs using Delimiters.scan.induct delimiters
    generalizing start' here' found' with
  | case1 start here run found =>
    rw [List.map_nil, scan, scan, List.map_reverse, List.map_reverse, List.map_reverse,
      map_token_pushRun_rename f start start' here here' run hfound]
  | case2 start here run found c cs mark hmark stop ih =>
    have hmark' : (delimiters.rename f).markAt? (f c :: cs.map f) = some mark := by
      rwa [← List.map_cons, markAt?_rename]
    rw [List.map_cons, scan, scan]
    simp only [hmark, hmark']
    rw [chars_rename, List.length_map, ← List.map_cons, ← List.map_drop]
    refine ih _ _ _ ?_
    simp [map_token_pushRun_rename f start start' here here' run hfound, Token.rename]
  | case3 start here run found c cs hmark ih =>
    have hmark' : (delimiters.rename f).markAt? (f c :: cs.map f) = none := by
      rwa [← List.map_cons, markAt?_rename]
    rw [List.map_cons, scan, scan]
    simp only [hmark, hmark']
    exact ih _ _ _ hfound

end Delimiters

namespace Markers

variable (markers : Markers)

/-- The text of a role is renamed with the markers. -/
@[simp] theorem get_rename (role : Role) : (markers.rename f).get role = (markers.get role).map f :=
  MarkerTexts.get_ofRoles _ role

/-- Renamed markers have the renamed delimiters. -/
theorem delimiters_rename : (markers.rename f).delimiters = markers.delimiters.rename f := by
  simp [delimiters, Delimiters.rename]

/-- The tokens of a renamed text are the renamed tokens of the text. -/
theorem tokens_rename (text : String) :
    (markers.rename f).tokens (text.map f) = (markers.tokens text).map (Token.rename f) := by
  rw [tokens, tokens, lexemes, lexemes, delimiters_rename, String.toList_map]
  exact markers.delimiters.map_token_scan_rename f 0 0 0 0 [] [] [] text.toList rfl

/-- A reference to a renamed name is the renamed reference. -/
theorem reference_rename (name : String) :
    (markers.rename f).reference (name.map f) = (markers.reference name).map f := by
  simp only [reference, get_rename, Renaming.map_append]

end Markers

/-- The weight of a token does not depend on its text. -/
theorem Token.weight_rename (token : Token) : (token.rename f).weight = token.weight := by
  cases token <;> rfl

/-- A text keeps its balance. -/
theorem Markers.balance_rename (markers : Markers) (text : String) :
    (markers.rename f).balance (text.map f) = markers.balance text := by
  have hbalance (markers : Markers) (text : String) : markers.balance text =
      (markers.tokens text).foldr (fun token balance => token.weight + balance) 0 := by
    rw [balance, tokens, List.foldr_map]
  rw [hbalance, hbalance, tokens_rename, List.foldr_map]
  simp only [Token.weight_rename]

end

/-- Two places that point at the same character, counted from the beginning, one in a text and one
in the renamed text. -/
def SameCharacter (f : Renaming) (text : String) (position other : Nat) : Prop :=
  ∃ index < text.length, position = byteLength (text.toList.take index) ∧
    other = byteLength ((text.map f).toList.take index)

/-- A lexeme of a text and the same lexeme of the renamed text. -/
structure Lexeme.Renamed (f : Renaming) (text : String) (lexeme other : Lexeme) : Prop where
  token : other.token = lexeme.token.rename f
  start : SameCharacter f text lexeme.start other.start

/-- A fault of a text and the same fault of the renamed text. -/
structure Malformed.Renamed (f : Renaming) (text : String) (fault other : Malformed) : Prop where
  side : other.side = fault.side
  position : SameCharacter f text fault.position other.position

section

variable {f : Renaming} {text : String}

/-- Where characters follow, the byte behind the characters in front points at the first of them. -/
theorem sameCharacter_of_append {before after : List Char} (hafter : after ≠ [])
    (htext : text.toList = before ++ after) :
    SameCharacter f text (byteLength before) (byteLength (before.map f)) := by
  refine ⟨before.length, ?_, ?_, ?_⟩
  · have hpos := List.length_pos_iff.mpr hafter
    rw [← String.length_toList, htext, List.length_append]
    omega
  · rw [htext, List.take_left]
  · rw [String.toList_map, htext, List.map_append, List.take_left' (List.length_map f)]

/-- Tokens laid side by side in a text correspond to the renamed tokens in the renamed text. -/
theorem Delimiters.forall₂_place (delimiters : Delimiters) {before : List Char}
    {tokens : List Token} (hne : ∀ token ∈ tokens, delimiters.written token ≠ [])
    (htext : text.toList = before ++ tokens.flatMap delimiters.written) :
    List.Forall₂ (Lexeme.Renamed f text) (delimiters.place (byteLength before) tokens)
      ((delimiters.rename f).place (byteLength (before.map f)) (tokens.map (Token.rename f))) := by
  induction tokens generalizing before with
  | nil => exact .nil
  | cons token rest ih =>
    rw [List.forall_mem_cons] at hne
    rw [List.flatMap_cons] at htext
    refine .cons ⟨rfl, sameCharacter_of_append (List.append_ne_nil_of_left_ne_nil hne.1 _) htext⟩ ?_
    rw [← List.append_assoc] at htext
    have hrest := ih hne.2 htext
    rwa [byteLength_append, List.map_append, byteLength_append,
      ← delimiters.written_rename f] at hrest

/-- The lexemes of a text correspond to those of the renamed text. -/
theorem Markers.forall₂_lexemes (markers : Markers) (text : String) :
    List.Forall₂ (Lexeme.Renamed f text) (markers.lexemes text)
      ((markers.rename f).lexemes (text.map f)) := by
  obtain ⟨hplace, hwritten, hne, -⟩ := markers.lexemes_tile text
  obtain ⟨hplace', -⟩ := (markers.rename f).lexemes_tile (text.map f)
  have htext : text.toList = [] ++ (markers.tokens text).flatMap markers.delimiters.written :=
    hwritten.symm
  rw [hplace, hplace', tokens_rename, delimiters_rename]
  exact markers.delimiters.forall₂_place hne htext

/-- Rows that correspond end in members that correspond. -/
theorem rel_getLast? {α β : Type} {related : α → β → Prop} {items : List α} {others : List β}
    (hitems : List.Forall₂ related items others) :
    Option.Rel related items.getLast? others.getLast? := by
  rw [List.getLast?_eq_head?_reverse, List.getLast?_eq_head?_reverse]
  have hreverse := List.forall₂_reverse_iff.mpr hitems
  generalize items.reverse = backwards at hreverse ⊢
  generalize others.reverse = backwards' at hreverse ⊢
  cases hreverse with
  | nil => exact .none
  | cons hfirst hrest => exact .some hfirst

/-- The structure check of lexemes that correspond finds faults that correspond. -/
theorem checkLexemes_renamed {unpaired unpaired' : List Nat} {lexemes others : List Lexeme}
    (hunpaired : List.Forall₂ (SameCharacter f text) unpaired unpaired')
    (hlexemes : List.Forall₂ (Lexeme.Renamed f text) lexemes others) :
    match checkLexemes unpaired lexemes with
    | .ok _ => checkLexemes unpaired' others = .ok ()
    | .error fault => ∃ other, checkLexemes unpaired' others = .error other ∧
        fault.Renamed f text other := by
  induction hlexemes generalizing unpaired unpaired' with
  | nil =>
    rw [checkLexemes, checkLexemes]
    have hlast := rel_getLast? hunpaired
    generalize unpaired.getLast? = last at hlast ⊢
    generalize unpaired'.getLast? = last' at hlast ⊢
    cases hlast with
    | none => rfl
    | some hstart => exact ⟨_, rfl, rfl, hstart⟩
  | @cons lexeme other rest others hlexeme hrest ih =>
    obtain ⟨token, start, stop⟩ := lexeme
    obtain ⟨_, start', stop'⟩ := other
    obtain ⟨rfl, hstart⟩ := hlexeme
    rcases token with chunk | kind
    · cases hunpaired with
      | nil => exact ih .nil
      | cons hfirst hothers => exact ih (.cons hfirst hothers)
    · cases kind with
      | opening => exact ih (.cons hstart hunpaired)
      | separator =>
        cases hunpaired with
        | nil => exact ih .nil
        | cons hfirst hothers => exact ih (.cons hfirst hothers)
      | closing =>
        cases hunpaired with
        | nil => exact ⟨_, rfl, rfl, hstart⟩
        | cons hfirst hothers => exact ih hothers

/-- The structure check of a renamed text finds the fault that corresponds. -/
theorem Markers.checkPairing_rename (markers : Markers) (f : Renaming) (text : String) :
    match markers.checkPairing text with
    | .ok _ => (markers.rename f).checkPairing (text.map f) = .ok ()
    | .error fault => ∃ other, (markers.rename f).checkPairing (text.map f) = .error other ∧
        fault.Renamed f text other :=
  checkLexemes_renamed .nil (markers.forall₂_lexemes text)

end

section

variable (f : Renaming)

/-- A renamed character is among the renamed ones just when it was among them. -/
theorem contains_map (cs : List Char) (c : Char) : (cs.map f).contains (f c) = cs.contains c := by
  rw [Bool.eq_iff_iff, List.contains_iff_mem, List.contains_iff_mem,
    List.mem_map_of_injective f.injective]

/-- A renamed reference is found where the reference is. -/
theorem referenceAt?_map (delimiter cs : List Char) :
    referenceAt? (delimiter.map f) (cs.map f) =
      (referenceAt? delimiter cs).map (Prod.map (List.map f) (List.map f)) := by
  have hname (inner : List Char) :
      (inner.map f).takeWhile (fun c => !(delimiter.map f).contains c) =
        (inner.takeWhile fun c => !delimiter.contains c).map f := by
    rw [List.takeWhile_map]
    congr 2
    funext c
    exact congrArg not (contains_map f delimiter c)
  have hempty (name : List Char) : (name.map f).isEmpty = name.isEmpty := List.isEmpty_map
  simp only [referenceAt?, Renaming.isPrefixOf_map, List.length_map, ← List.map_drop, hname, hempty]
  split
  · split <;> rfl
  · rfl

/-- The names that are found are renamed. -/
theorem referenceNames_map {delimiter : List Char} (found : List String) (cs : List Char) :
    referenceNames (delimiter.map f) (found.map (String.map f)) (cs.map f) =
      (referenceNames delimiter found cs).map (String.map f) := by
  induction found, cs using referenceNames.induct delimiter with
  | case1 found => simp [referenceNames]
  | case2 found c cs name rest hfound ih =>
    have hfound' : referenceAt? (delimiter.map f) ((c :: cs).map f) =
        some (name.map f, rest.map f) := by rw [referenceAt?_map, hfound]; rfl
    rw [referenceNames_of_some hfound, referenceNames_of_some hfound', ← ih, List.map_cons,
      Renaming.map_ofList]
  | case3 found c cs hnone ih =>
    have hnone' : referenceAt? (delimiter.map f) (f c :: cs.map f) = none := by
      rw [← List.map_cons, referenceAt?_map, hnone]; rfl
    rw [referenceNames_of_none hnone, List.map_cons, referenceNames_of_none hnone', ih]

/-- Removing repetitions goes with renaming one for one. -/
theorem eraseDups_map {α β : Type} [BEq α] [LawfulBEq α] [BEq β] [LawfulBEq β] {g : α → β}
    (hg : Function.Injective g) (items : List α) :
    (items.map g).eraseDups = items.eraseDups.map g := by
  -- What is left of the rest, after the copies of the first item, is shorter.
  induction hlength : items.length using Nat.strong_induction_on generalizing items with
  | _ length ih =>
    cases items with
    | nil => rfl
    | cons item rest =>
      have hsame : ((fun other => !other == g item) ∘ g) = fun other => !other == item := by
        funext other
        exact congrArg not (hg.beq_eq)
      have hshorter : (rest.filter fun other => !other == item).length < length := by
        rw [← hlength, List.length_cons]
        exact Nat.lt_succ_of_le (List.length_filter_le _ _)
      rw [List.map_cons, List.eraseDups_cons, List.eraseDups_cons, List.map_cons, List.filter_map,
        hsame, ih _ hshorter _ rfl]

/-- The value of a renamed name is the renamed value. -/
theorem Entries.find?_map (name : String) (entries : Entries String) :
    Entries.find? (name.map f) (entries.map fun entry => (entry.1.map f, entry.2.map f)) =
      (entries.find? name).map (String.map f) := by
  induction entries with
  | nil => rfl
  | cons entry rest ih =>
    obtain ⟨key, value⟩ := entry
    simp only [List.map_cons, find?, f.map_injective.eq_iff, ih]
    split <;> rfl

namespace Markers

variable (markers : Markers) (table : Table)

/-- The references of a renamed template are the renamed ones. -/
theorem references_rename (template : String) :
    (markers.rename f).references (template.map f) =
      (markers.references template).map (String.map f) := by
  rw [references, references, get_rename, String.toList_map, String.toList_map,
    ← referenceNames_map]
  rfl

/-- A renamed name is usable just when the name was. -/
theorem usable_rename (name : String) :
    (markers.rename f).usable (table.rename f) (name.map f) = markers.usable table name := by
  have hget : (table.rename f).get? (name.map f) = (table.get? name).map (String.map f) :=
    Entries.find?_map f name table.entries
  rw [usable, usable, hget]
  cases table.get? name with
  | none => rfl
  | some value => simp [Renaming.occursIn_map]

/-- The names that the audit reports are renamed, in the same order. -/
theorem audit_rename (template : String) :
    (markers.rename f).audit (table.rename f) (template.map f) =
      (markers.audit table template).map (String.map f) := by
  rw [audit, audit, references_rename, eraseDups_map f.map_injective, List.filter_map]
  congr 2
  funext name
  exact congrArg not (usable_rename f markers table name)

end Markers

end

end Spintax
