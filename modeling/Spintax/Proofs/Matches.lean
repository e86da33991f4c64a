import Spintax.Proofs.LastValues
import Spintax.Proofs.Reading
import Spintax.Proofs.Slices

/-!
# The matches of references

A reference can stand at many places of a text, and places can overlap. Reading from left to right
takes the first place, goes on behind it, and so leaves no place out that begins in a gap: in front
of the first match, between two matches that follow each other, or behind the last. A name is all
that stands between two markers and has none of the marker's characters, so where a reference begins
there is one only. Hence the matches are determined by having no place in a gap.
-/

namespace Spintax

/-- A place of a reference: the bytes where it starts and stops, and the name. -/
structure Mention where
  start : Nat
  stop : Nat
  name : String
deriving DecidableEq

/-- The names among the pieces that stand between delimiters that follow each other. A piece with
characters is a name, and the delimiter behind it is used up, so the next piece is skipped. An empty
piece is passed over. -/
def namesBetween : List (List Char) → List (List Char)
  | [] => []
  | [] :: rest => namesBetween rest
  | (c :: cs) :: [] => [c :: cs]
  | (c :: cs) :: _ :: rest => (c :: cs) :: namesBetween rest

/-- A piece with characters is a name, and the next piece is skipped. -/
theorem namesBetween_cons {piece : List Char} (hne : piece ≠ []) (rest : List (List Char)) :
    namesBetween (piece :: rest) = piece :: namesBetween rest.tail := by
  obtain ⟨c, cs, rfl⟩ := List.exists_cons_of_ne_nil hne
  cases rest <;> rfl

/-- Without its repetitions, a list is in the order in which its members come first. -/
theorem pairwise_idxOf_eraseDups {α : Type} [BEq α] [LawfulBEq α] (xs : List α) :
    xs.eraseDups.Pairwise fun a b => xs.idxOf a < xs.idxOf b := by
  induction xs using List.reverseRecOn with
  | nil => exact .nil
  | append_singleton xs x ih =>
    have hkept {a : α} (hmem : a ∈ xs.eraseDups) : (xs ++ [x]).idxOf a = xs.idxOf a :=
      List.idxOf_append_of_mem (List.mem_eraseDups.mp hmem)
    have hearlier : xs.eraseDups.Pairwise fun a b => (xs ++ [x]).idxOf a < (xs ++ [x]).idxOf b :=
      ih.imp_of_mem fun ha hb hlt => by rwa [hkept ha, hkept hb]
    rw [eraseDups_concat]
    by_cases hmem : x ∈ xs
    · rw [if_pos hmem]
      exact hearlier
    · rw [if_neg hmem]
      refine List.pairwise_append.mpr ⟨hearlier, List.pairwise_singleton _ x, fun a ha b hb => ?_⟩
      rw [hkept ha, List.mem_singleton.mp hb, List.idxOf_append_of_notMem hmem]
      exact Nat.lt_add_right _ (List.idxOf_lt_length_of_mem (List.mem_eraseDups.mp ha))

namespace Markers

variable (markers : Markers) (text : String)

/-- A reference stands at a place of a text: its name has characters, but none of the placeholder
marker, and the text has the name between two markers there. -/
structure Mentions (mention : Mention) : Prop where
  name_ne_empty : mention.name ≠ ""
  outside : ∀ c ∈ mention.name.toList, c ∉ (markers.get .placeholder).toList
  beginsAt : Text.BeginsAt (markers.reference mention.name) text mention.start
  stop_eq : mention.stop = mention.start + (markers.reference mention.name).utf8ByteSize

/-- The places are those of references, one behind the other from a byte on, and no reference begins
in a gap: between the byte and the first place, between the end of a place and the next one, or
behind the last. -/
def MatchesFrom (position : Nat) : List Mention → Prop
  | [] => ∀ other, markers.Mentions text other → other.start < position
  | mention :: rest =>
    markers.Mentions text mention ∧ position ≤ mention.start ∧
      (∀ other, markers.Mentions text other →
        position ≤ other.start → mention.start ≤ other.start) ∧
      MatchesFrom mention.stop rest

variable {markers text} {before rest : List Char} {mention : Mention}

/-- A reference is a name between two placeholder markers, which may have several characters. -/
theorem toList_reference_eq (markers : Markers) (name : String) :
    (markers.reference name).toList = (markers.get .placeholder).toList ++
      (name.toList ++ (markers.get .placeholder).toList) := by
  rw [reference, String.toList_append, String.toList_append, List.append_assoc]

/-- What stands at a place is what is found among the characters there. -/
theorem mentions_iff (htext : text.toList = before ++ rest)
    (hstart : mention.start = byteLength before) :
    markers.Mentions text mention ↔
      mention.stop = mention.start + (markers.reference mention.name).utf8ByteSize ∧
        ∃ after, referenceAt? (markers.get .placeholder).toList rest =
          some (mention.name.toList, after) := by
  have hplaceholder : (markers.get .placeholder).toList ≠ [] := by
    simpa using markers.get_ne_empty .placeholder
  constructor
  · rintro ⟨hname, houtside, hbegins, hstop⟩
    rw [hstart, Text.beginsAt_byteLength_iff htext] at hbegins
    obtain ⟨after, hafter⟩ := hbegins
    refine ⟨hstop, after, (referenceAt?_eq_some_iff hplaceholder).mpr
      ⟨by simpa using hname, houtside, ?_⟩⟩
    rw [← hafter, toList_reference_eq, List.append_assoc, List.append_assoc]
  · rintro ⟨hstop, after, hfound⟩
    obtain ⟨hname, houtside, hrest⟩ := (referenceAt?_eq_some_iff hplaceholder).mp hfound
    refine ⟨by simpa using hname, houtside, ?_, hstop⟩
    rw [hstart, Text.beginsAt_byteLength_iff htext, toList_reference_eq, hrest]
    exact ⟨after, by simp⟩

/-- References at the same place are the same. -/
theorem Mentions.eq_of_start {other : Mention} (hmention : markers.Mentions text mention)
    (hother : markers.Mentions text other) (hstart : mention.start = other.start) :
    mention = other := by
  obtain ⟨before, rest, htext, hbefore⟩ := Text.isBoundary_iff.mp hmention.beginsAt.isBoundary
  obtain ⟨hstop, after, hfound⟩ := (mentions_iff htext hbefore.symm).mp hmention
  obtain ⟨hstop', after', hfound'⟩ := (mentions_iff htext (hstart ▸ hbefore.symm)).mp hother
  have hname : mention.name = other.name :=
    String.toList_injective (Prod.mk.inj (Option.some.inj (hfound.symm.trans hfound'))).1
  obtain ⟨start, stop, name⟩ := mention
  obtain ⟨start', stop', name'⟩ := other
  simp only at hstart hname hstop hstop'
  rw [hstart, hname] at hstop
  rw [hstart, hname, hstop, hstop']

/-- Matches without a place in a gap are determined. -/
theorem MatchesFrom.eq {found others : List Mention} {position : Nat}
    (hfound : markers.MatchesFrom text position found)
    (hothers : markers.MatchesFrom text position others) : found = others := by
  induction found generalizing position others with
  | nil =>
    cases others with
    | nil => rfl
    | cons other others =>
      exact absurd hothers.2.1 (Nat.not_le.mpr (hfound other hothers.1))
  | cons mention found ih =>
    cases others with
    | nil => exact absurd hfound.2.1 (Nat.not_le.mpr (hothers mention hfound.1))
    | cons other others =>
      obtain ⟨hmention, hposition, hfirst, hbehind⟩ := hfound
      obtain ⟨hother, hposition', hfirst', hbehind'⟩ := hothers
      obtain rfl : mention = other := hmention.eq_of_start hother
        (Nat.le_antisymm (hfirst other hother hposition') (hfirst' mention hmention hposition))
      rw [ih hbehind hbehind']

/-- A gap can be made longer where no reference begins. -/
theorem MatchesFrom.of_clear {found : List Mention} {position earlier : Nat}
    (hfound : markers.MatchesFrom text position found) (hle : earlier ≤ position)
    (hclear : ∀ other, markers.Mentions text other → earlier ≤ other.start →
      position ≤ other.start) : markers.MatchesFrom text earlier found := by
  cases found with
  | nil =>
    intro other hother
    by_contra hlater
    exact absurd (hclear other hother (Nat.not_lt.mp hlater)) (Nat.not_le.mpr (hfound other hother))
  | cons mention found =>
    obtain ⟨hmention, hposition, hfirst, hbehind⟩ := hfound
    exact ⟨hmention, hle.trans hposition, fun other hother hlater =>
      hfirst other hother (hclear other hother hlater), hbehind⟩

/-- Behind the last byte no reference begins. -/
theorem matchesFrom_nil (htext : text.toList = before) :
    markers.MatchesFrom text (byteLength before) [] := by
  intro other hother
  by_contra hlater
  rw [← List.append_nil before] at htext
  obtain ⟨part, after, hnil, hstart⟩ :=
    Text.exists_split_of_isBoundary htext hother.beginsAt.isBoundary (Nat.not_lt.mp hlater)
  obtain ⟨rfl, rfl⟩ := List.append_eq_nil_iff.mp hnil.symm
  obtain ⟨-, after, hfound⟩ := (mentions_iff htext hstart).mp hother
  exact absurd (length_of_referenceAt? hfound) (Nat.not_lt_zero _)

/-- Where no reference begins at a character, it begins behind the character or later. -/
theorem Mentions.le_start {c : Char} {rest : List Char} (hmention : markers.Mentions text mention)
    (htext : text.toList = before ++ c :: rest)
    (hnone : referenceAt? (markers.get .placeholder).toList (c :: rest) = none)
    (hle : byteLength before ≤ mention.start) : byteLength (before ++ [c]) ≤ mention.start := by
  obtain ⟨part, after, hrest, hstart⟩ :=
    Text.exists_split_of_isBoundary htext hmention.beginsAt.isBoundary hle
  cases part with
  | nil =>
    obtain ⟨-, behind, hfound⟩ := (mentions_iff htext hstart).mp hmention
    cases hnone.symm.trans hfound
  | cons d part =>
    obtain rfl : c = d := (List.cons.inj hrest).1
    rw [hstart, byteLength_append, byteLength_cons c part, byteLength_cons c []]
    exact Nat.add_le_add_left (Nat.add_le_add_left (Nat.zero_le _) _) _

/-- Reading from a byte on finds the names of matches without a place in a gap. -/
theorem exists_matchesFrom (found : List String) (before rest : List Char)
    (htext : text.toList = before ++ rest) :
    ∃ mentions, markers.MatchesFrom text (byteLength before) mentions ∧
      referenceNames (markers.get .placeholder).toList found rest =
        found.reverse ++ mentions.map Mention.name := by
  induction found, rest using referenceNames.induct (markers.get .placeholder).toList
    generalizing before with
  | case1 found =>
    rw [List.append_nil] at htext
    refine ⟨[], matchesFrom_nil htext, ?_⟩
    rw [referenceNames, List.map_nil, List.append_nil]
  | case2 found c cs name rest hfound ih =>
    have hplaceholder : (markers.get .placeholder).toList ≠ [] := by
      simpa using markers.get_ne_empty .placeholder
    obtain ⟨-, -, hrest⟩ := (referenceAt?_eq_some_iff hplaceholder).mp hfound
    let reference := markers.reference (String.ofList name)
    have hreference : reference.toList = (markers.get .placeholder).toList ++
        (name ++ (markers.get .placeholder).toList) := by
      rw [toList_reference_eq, String.toList_ofList]
    obtain ⟨mentions, hmatches, hnames⟩ := ih (before ++ reference.toList) (by
      rw [htext, hrest, hreference]
      simp)
    rw [byteLength_append, ← utf8ByteSize_eq_byteLength] at hmatches
    refine ⟨⟨byteLength before, byteLength before + reference.utf8ByteSize, String.ofList name⟩ ::
      mentions, ⟨?_, Nat.le_refl _, fun other _ hle => hle, hmatches⟩, ?_⟩
    · rw [mentions_iff htext rfl, String.toList_ofList]
      exact ⟨rfl, rest, hfound⟩
    · rw [referenceNames_of_some hfound, hnames, List.reverse_cons, List.append_assoc]
      rfl
  | case3 found c cs hnone ih =>
    obtain ⟨mentions, hmatches, hnames⟩ := ih (before ++ [c]) (by simp [htext])
    refine ⟨mentions, hmatches.of_clear ?_ ?_, ?_⟩
    · rw [byteLength_append]
      exact Nat.le_add_right _ _
    · intro other hother
      exact hother.le_start htext hnone
    · rw [referenceNames_of_none hnone, hnames]

/-- The references of a text are the names of its matches, and these are determined by having no
place in a gap. -/
theorem exists_matchesFrom_iff (markers : Markers) (text : String) :
    ∃ mentions, (∀ others, markers.MatchesFrom text 0 others ↔ others = mentions) ∧
      markers.references text = mentions.map Mention.name := by
  obtain ⟨mentions, hmatches, hnames⟩ :=
    markers.exists_matchesFrom [] [] text.toList (List.nil_append _).symm
  refine ⟨mentions, fun others => ⟨fun hothers => hothers.eq hmatches, ?_⟩, hnames⟩
  rintro rfl
  exact hmatches

/-- The audit lists names in the order in which the text refers to them first. -/
theorem pairwise_idxOf_audit (markers : Markers) (table : Table) (text : String) :
    (markers.audit table text).Pairwise fun a b =>
      (markers.references text).idxOf a < (markers.references text).idxOf b :=
  (pairwise_idxOf_eraseDups _).sublist List.filter_sublist

/-- A name cannot be substituted when it has no value, or when this has a placeholder marker. -/
theorem usable_eq_false_iff {markers : Markers} {table : Table} {name : String} :
    markers.usable table name = false ↔ table.get? name = none ∨
      ∃ value, table.get? name = some value ∧
        (markers.get .placeholder).toList <:+: value.toList := by
  rw [usable]
  cases table.get? name with
  | none => simp
  | some value => simp [← occursIn_iff_isInfix]

/-- The names that the audit lists are those referred to that cannot be substituted. -/
theorem mem_audit_iff {markers : Markers} {table : Table} {text name : String} :
    name ∈ markers.audit table text ↔
      name ∈ markers.references text ∧ markers.usable table name = false := by
  rw [audit, List.mem_filter, List.mem_eraseDups, Bool.not_eq_true']

/-- With a placeholder marker of one character, the names are pieces that it cuts the characters
into, but not the first and the last. Behind a delimiter that may begin a reference, the first piece
counts too. -/
theorem namesFrom_eq_namesBetween (p : Char) (cs : List Char) :
    namesFrom p none cs = namesBetween (cs.splitOn p).tail.dropLast ∧
      namesFrom p (some []) cs = namesBetween (cs.splitOn p).dropLast := by
  by_cases hmem : p ∈ cs
  · obtain ⟨piece, rest, hcut, hfree⟩ := List.eq_append_cons_of_mem hmem
    obtain ⟨houtside, hinside⟩ := namesFrom_eq_namesBetween p rest
    have hbegins (state : Option (List Char)) (hstate : state = none ∨ state = some []) :
        namesFrom p state (p :: rest) = namesFrom p (some []) rest := by
      rcases hstate with rfl | rfl <;> simp [namesFrom, readStep]
    rw [hcut, List.splitOn_append_cons_self_of_not_mem hfree, List.tail_cons,
      List.dropLast_cons_of_ne_nil (List.splitOn_ne_nil p rest)]
    constructor
    · rw [namesFrom_none_append hfree, hbegins none (.inl rfl), hinside]
    · by_cases hpiece : piece = []
      · rw [hpiece, List.nil_append, hbegins (some []) (.inr rfl), hinside, namesBetween]
      · have hname : [] ++ piece ≠ [] := hpiece
        rw [namesFrom_some_append hfree hname, List.nil_append, houtside, namesBetween_cons hpiece,
          List.tail_dropLast]
  · rw [namesFrom_of_not_mem hmem, namesFrom_of_not_mem hmem, List.splitOn_eq_singleton hmem]
    exact ⟨rfl, rfl⟩
termination_by cs.length
decreasing_by
  rw [hcut, List.length_append, List.length_cons]
  omega

/-- The audit lists the names of the matches that cannot be substituted, each once.

The matches are the only row of places that leaves no reference in a gap. With a placeholder marker of one
character, their names are pieces between delimiters, where the piece behind a name is skipped. -/
theorem audit_lists_matches (markers : Markers) (table : Table) (text : String) :
    ∃ mentions : List Mention, (∀ others, markers.MatchesFrom text 0 others ↔ others = mentions) ∧
      (markers.audit table text).Nodup ∧
      (∀ name, name ∈ markers.audit table text ↔ (∃ mention ∈ mentions, mention.name = name) ∧
        (table.get? name = none ∨ ∃ value, table.get? name = some value ∧
          (markers.get .placeholder).toList <:+: value.toList)) ∧
      ((markers.audit table text).Pairwise fun a b =>
        (mentions.map Mention.name).idxOf a < (mentions.map Mention.name).idxOf b) ∧
      ∀ p, (markers.get .placeholder).toList = [p] → mentions.map Mention.name =
        (namesBetween (text.toList.splitOn p).tail.dropLast).map String.ofList := by
  obtain ⟨mentions, hmatches, hnames⟩ := markers.exists_matchesFrom_iff text
  have horder := markers.pairwise_idxOf_audit table text
  refine ⟨mentions, hmatches, ?_, fun name => ?_, hnames ▸ horder, fun p hplaceholder => ?_⟩
  · exact horder.imp fun hlt heq => absurd (heq ▸ hlt) (Nat.lt_irrefl _)
  · rw [mem_audit_iff, hnames, List.mem_map, usable_eq_false_iff]
  · rw [← hnames, references_eq_map hplaceholder, (namesFrom_eq_namesBetween p text.toList).1]

end Markers

end Spintax
