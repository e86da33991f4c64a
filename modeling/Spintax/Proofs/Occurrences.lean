import Mathlib.Data.List.Infix
import Spintax.Text.Search

/-!
# Occurrences of a delimited name

A pattern occurs in a text just when it is a contiguous part of it. The patterns that matter most are
names between two delimiters, where the delimiter is one character that the name does not have. When
such a pattern occurs, the name is all that stands between two delimiters that follow each other. So
an occurrence cannot begin in one stretch of text and end behind the next delimiter, and what is
replaced can be read off the text stretch by stretch.
-/

namespace Spintax

namespace Text

/-- The search finds a pattern just when it is a contiguous part of the characters. -/
theorem occurs_iff_isInfix {pattern cs : List Char} :
    occurs pattern cs = true ↔ pattern <:+: cs := by
  induction cs with
  | nil =>
    rw [occurs, List.isEmpty_iff]
    exact List.infix_nil.symm
  | cons c cs ih =>
    rw [occurs, Bool.or_eq_true, List.isPrefixOf_iff_prefix, ih]
    exact List.infix_cons_iff.symm

/-- A name between two delimiters. -/
def delimited (delimiter : Char) (name : List Char) : List Char :=
  delimiter :: (name ++ [delimiter])

section

variable {p : Char} {name : List Char}

/-- A name that two delimiters enclose is found only where there are two delimiters. -/
theorem not_delimited_infix_of_not_mem {before : List Char} (hbefore : p ∉ before) :
    ¬ delimited p name <:+: before ++ [p] := by
  intro hoccurs
  have hle := hoccurs.sublist.count_le p
  rw [delimited, List.count_cons_self, List.count_append, List.count_append,
    List.count_eq_zero_of_not_mem hbefore, List.count_singleton_self] at hle
  omega

/-- What comes behind the last delimiter has no part in an occurrence. -/
theorem delimited_infix_of_append {before after : List Char} (hafter : p ∉ after)
    (hoccurs : delimited p name <:+: before ++ after) : delimited p name <:+: before := by
  rcases List.infix_append_iff.mp hoccurs with hleft | hright | ⟨left, right, heq, hleft, hright⟩
  · exact hleft
  · exact absurd (hright.subset List.mem_cons_self) hafter
  · -- The part behind the delimiter would end in a delimiter.
    have hnil : right = [] := by
      by_contra hne
      have hlast : right.getLast hne = p := by
        have hend := congrArg List.getLast? heq
        rw [List.getLast?_append_of_ne_nil _ hne, List.getLast?_eq_some_getLast hne] at hend
        simpa [delimited, List.getLast?_cons] using hend.symm
      exact hafter (hright.subset (hlast ▸ List.getLast_mem hne))
    rw [hnil, List.append_nil] at heq
    exact heq ▸ hleft.isInfix

/-- Behind the last delimiter of two equal texts stands the same. -/
theorem eq_of_append_cons_eq {first second left right : List Char} (hleft : p ∉ left)
    (hright : p ∉ right) (heq : first ++ p :: left = second ++ p :: right) : left = right := by
  -- If one of the last delimiters stood in front of the other, the other would be behind the last.
  rcases List.append_eq_append_iff.mp heq with ⟨between, -, hbehind⟩ | ⟨between, -, hbehind⟩
  · rcases between with _ | ⟨c, between⟩
    · exact (List.cons.inj hbehind).2
    · exact absurd ((List.cons.inj hbehind).2 ▸ List.mem_append_right _ List.mem_cons_self) hleft
  · rcases between with _ | ⟨c, between⟩
    · exact (List.cons.inj hbehind).2.symm
    · exact absurd ((List.cons.inj hbehind).2 ▸ List.mem_append_right _ List.mem_cons_self) hright

/-- An occurrence that ends in the last of three delimiters is what the last two of them enclose. -/
theorem delimited_infix_of_enclosed {before between : List Char} (hname : p ∉ name)
    (hbetween : p ∉ between) (hoccurs : delimited p name <:+: before ++ delimited p between) :
    delimited p name <:+: before ++ [p] ∨ name = between := by
  have heq : before ++ delimited p between = before ++ p :: between ++ [p] := by simp [delimited]
  rw [heq, List.infix_concat_iff] at hoccurs
  rcases hoccurs with ⟨first, hend⟩ | hinside
  · right
    have hcut : (first ++ p :: name) ++ [p] = (before ++ p :: between) ++ [p] := by
      rw [← hend]
      simp [delimited]
    exact eq_of_append_cons_eq hname hbetween (List.append_cancel_right hcut)
  · left
    have hsplit : before ++ p :: between = (before ++ [p]) ++ between := by simp
    rw [hsplit] at hinside
    exact delimited_infix_of_append hbetween hinside

/-- Where a pattern does not occur, nothing is replaced. -/
theorem replaceFrom_of_not_isInfix {pattern : List Char} (replacement written : String)
    {cs : List Char} (hclear : ¬ pattern <:+: cs) :
    replaceFrom pattern replacement written cs = written ++ String.ofList cs := by
  induction cs generalizing written with
  | nil => rw [replaceFrom, String.ofList_nil, String.append_empty]
  | cons c cs ih =>
    rw [List.infix_cons_iff, not_or] at hclear
    have hbegins : ¬ pattern.isPrefixOf (c :: cs) = true :=
      mt List.isPrefixOf_iff_prefix.mp hclear.1
    rw [replaceFrom, if_neg hbegins, ih _ hclear.2]
    rw [String.ofList_cons, ← String.append_assoc, String.append_singleton]

/-- The first occurrence is where the text in front of it, up to and with the delimiter that begins
it, has none. The search goes on behind it. -/
theorem replaceFrom_append {stretch : List Char} (hname : p ∉ name)
    (hclear : ¬ delimited p name <:+: stretch ++ [p]) (replacement written : String)
    (rest : List Char) :
    replaceFrom (delimited p name) replacement written (stretch ++ (delimited p name ++ rest)) =
      replaceFrom (delimited p name) replacement (written ++ String.ofList stretch ++ replacement)
        rest := by
  induction stretch generalizing written with
  | nil =>
    have hbegins : (delimited p name).isPrefixOf (p :: (name ++ [p] ++ rest)) = true :=
      List.isPrefixOf_iff_prefix.mpr (List.prefix_append (delimited p name) rest)
    have hlength : (delimited p name).length - 1 = (name ++ [p]).length := rfl
    change replaceFrom (delimited p name) replacement written (p :: (name ++ [p] ++ rest)) = _
    rw [replaceFrom, if_pos hbegins, hlength, List.drop_left, String.ofList_nil, String.append_empty]
  | cons c stretch ih =>
    rw [List.cons_append, List.infix_cons_iff, not_or] at hclear
    have hbegins : ¬ delimited p name <+: c :: (stretch ++ (delimited p name ++ rest)) := by
      intro hhere
      have hfront : c :: (stretch ++ [p]) <+: c :: (stretch ++ (delimited p name ++ rest)) :=
        ⟨name ++ [p] ++ rest, by simp [delimited]⟩
      rcases List.prefix_or_prefix_of_prefix hhere hfront with hwithin | hbeyond
      · exact hclear.1 hwithin
      · -- The delimiter behind the stretch would stand inside the name.
        have htail := (List.cons_prefix_cons.mp hbeyond).2
        rcases List.prefix_concat_iff.mp htail with heq | hinside
        · exact hclear.1 (by rw [delimited, heq, (List.cons_prefix_cons.mp hbeyond).1])
        · exact hname (hinside.subset (List.mem_append_right _ (List.mem_singleton.mpr rfl)))
    rw [List.cons_append, replaceFrom, if_neg (mt List.isPrefixOf_iff_prefix.mp hbegins),
      ih hclear.2, String.ofList_cons, ← String.append_assoc, String.append_singleton]

end

end Text

/-- A text occurs in another just when its characters are a contiguous part of the other's. -/
theorem occursIn_iff_isInfix {pattern text : String} :
    occursIn pattern text = true ↔ pattern.toList <:+: text.toList :=
  Text.occurs_iff_isInfix

end Spintax
