import Mathlib.Data.List.Infix
import Mathlib.Data.List.Sort
import Spintax.Proofs.Signs
import Spintax.Proofs.Tokenization

/-!
# Markers that cannot overlap

A scan looks for markers only behind the tokens that it has found. When the ends of the three
markers begin none of them, and none is a part of another, no two occurrences share a character.
Then an occurrence lies in no run of text, since no mark begins there, and it does not begin inside
a mark; so it is a token itself. The scan misses no occurrence, and the balance counts occurrences.

Three different characters are such markers.
-/

namespace Spintax

namespace Text

/-- The byte offsets at which a pattern begins among the characters that follow byte `here`. -/
def occurrencesFrom (pattern : List Char) (here : Nat) : List Char → List Nat
  | [] => if pattern.isEmpty then [here] else []
  | c :: cs =>
    let later := occurrencesFrom pattern (here + c.utf8Size) cs
    if pattern.isPrefixOf (c :: cs) then here :: later else later

/-- The byte offsets at which a pattern occurs in a text, in ascending order. -/
def occurrences (pattern text : String) : List Nat :=
  occurrencesFrom pattern.toList 0 text.toList

/-- The offsets are those of the cuts behind which the characters begin with the pattern. -/
theorem mem_occurrencesFrom_iff {pattern cs : List Char} {here position : Nat} :
    position ∈ occurrencesFrom pattern here cs ↔
      ∃ before rest, cs = before ++ rest ∧ pattern <+: rest ∧
        position = here + byteLength before := by
  induction cs generalizing here with
  | nil =>
    rw [occurrencesFrom]
    constructor
    · intro hmem
      split at hmem
      · next hempty =>
        rw [List.isEmpty_iff.mp hempty]
        exact ⟨[], [], rfl, List.nil_prefix, List.mem_singleton.mp hmem⟩
      · cases hmem
    · rintro ⟨before, rest, hcut, hpattern, rfl⟩
      obtain ⟨rfl, rfl⟩ := List.append_eq_nil_iff.mp hcut.symm
      rw [List.prefix_nil.mp hpattern]
      simp
  | cons c cs ih =>
    have hlater : position ∈ occurrencesFrom pattern (here + c.utf8Size) cs ↔
        ∃ before rest, c :: cs = (c :: before) ++ rest ∧ pattern <+: rest ∧
          position = here + byteLength (c :: before) := by
      simp only [ih, List.cons_append, List.cons.injEq, true_and, byteLength_cons, Nat.add_assoc]
    have hmem : position ∈ occurrencesFrom pattern here (c :: cs) ↔
        (pattern <+: c :: cs ∧ position = here) ∨
          position ∈ occurrencesFrom pattern (here + c.utf8Size) cs := by
      rw [occurrencesFrom, ← List.isPrefixOf_iff_prefix]
      cases pattern.isPrefixOf (c :: cs) <;> simp
    rw [hmem, hlater]
    constructor
    · rintro (⟨hpattern, rfl⟩ | ⟨before, rest, hcut⟩)
      · exact ⟨[], c :: cs, rfl, hpattern, rfl⟩
      · exact ⟨c :: before, rest, hcut⟩
    · rintro ⟨_ | ⟨d, before⟩, rest, hcut, hpattern, hposition⟩
      · obtain rfl : c :: cs = rest := hcut
        exact .inl ⟨hpattern, hposition⟩
      · obtain ⟨rfl, hcut'⟩ := List.cons.inj hcut
        exact .inr ⟨before, rest, hcut, hpattern, hposition⟩

/-- The offsets at which a pattern occurs are those at which it begins. -/
theorem mem_occurrences_iff {pattern text : String} {position : Nat} :
    position ∈ occurrences pattern text ↔ BeginsAt pattern text position := by
  rw [occurrences, mem_occurrencesFrom_iff]
  constructor
  · rintro ⟨before, rest, htext, hpattern, rfl⟩
    rw [Nat.zero_add]
    exact (beginsAt_byteLength_iff htext).mpr hpattern
  · intro hbegins
    obtain ⟨before, rest, htext, rfl⟩ := isBoundary_iff.mp hbegins.isBoundary
    exact ⟨before, rest, htext, (beginsAt_byteLength_iff htext).mp hbegins, (Nat.zero_add _).symm⟩

/-- The offsets are in ascending order, each once. -/
theorem pairwise_occurrencesFrom (pattern : List Char) (here : Nat) (cs : List Char) :
    (occurrencesFrom pattern here cs).Pairwise (· < ·) := by
  induction cs generalizing here with
  | nil =>
    rw [occurrencesFrom]
    split <;> simp
  | cons c cs ih =>
    rw [occurrencesFrom]
    split
    · refine List.pairwise_cons.mpr ⟨fun position hmem => ?_, ih _⟩
      obtain ⟨before, rest, -, -, rfl⟩ := mem_occurrencesFrom_iff.mp hmem
      have := c.utf8Size_pos
      omega
    · exact ih _

end Text

/-- The list of marks is complete. -/
theorem Mark.mem_all (mark : Mark) : mark ∈ Mark.all := by
  cases mark <;> decide

/-- Markers of which no two occurrences can overlap: they are different, no end of one of them
begins one of them, unless it is the whole marker, and none is a part of another. -/
structure Delimiters.NonOverlapping (delimiters : Delimiters) : Prop where
  distinct : ∀ mark other, mark ≠ other → delimiters.chars mark ≠ delimiters.chars other
  not_prefix : ∀ mark other back, back <:+ delimiters.chars mark → back ≠ [] →
    back ≠ delimiters.chars mark → ¬ back <+: delimiters.chars other
  not_infix : ∀ mark other, mark ≠ other → ¬ delimiters.chars mark <:+: delimiters.chars other

namespace Delimiters

instance (delimiters : Delimiters) : Decidable delimiters.NonOverlapping :=
  decidable_of_iff
    (∀ mark ∈ Mark.all, ∀ other ∈ Mark.all,
      (mark ≠ other → delimiters.chars mark ≠ delimiters.chars other ∧
        ¬ delimiters.chars mark <:+: delimiters.chars other) ∧
      ∀ back ∈ (delimiters.chars mark).tails, back ≠ [] → back ≠ delimiters.chars mark →
        ¬ back <+: delimiters.chars other)
    ⟨fun hall => by
      have hall (mark other : Mark) := hall mark mark.mem_all other other.mem_all
      exact ⟨fun mark other hne => ((hall mark other).1 hne).1,
        fun mark other back hback => (hall mark other).2 back ((List.mem_tails _ _).mpr hback),
        fun mark other hne => ((hall mark other).1 hne).2⟩,
    fun hapart mark _ other _ =>
      ⟨fun hne => ⟨hapart.distinct mark other hne, hapart.not_infix mark other hne⟩,
        fun back hback => hapart.not_prefix mark other back ((List.mem_tails _ _).mp hback)⟩⟩

variable {delimiters : Delimiters}

/-- When one marker begins and another begins behind a part of the text, the first one ends in this
part, unless the two are the same. -/
theorem NonOverlapping.prefix_of_prefix (hapart : delimiters.NonOverlapping) {mark other : Mark}
    {part after : List Char} (hmark : delimiters.chars mark <+: part ++ after)
    (hother : delimiters.chars other <+: after) :
    (mark = other ∧ part = []) ∨ delimiters.chars mark <+: part := by
  rcases List.prefix_or_prefix_of_prefix hmark (List.prefix_append part after) with
    hwithin | ⟨back, hback⟩
  · exact .inr hwithin
  · -- The marker is the part and something behind it, which the other marker begins with or begins.
    rw [← hback, List.prefix_append_right_inj] at hmark
    have hsuffix : back <:+ delimiters.chars mark := ⟨part, hback⟩
    have hpart (hwhole : back = delimiters.chars mark) : part = [] :=
      List.append_left_eq_self.mp (hback.trans hwhole.symm)
    rcases List.prefix_or_prefix_of_prefix hmark hother with hbegins | hinside
    · by_cases hnil : back = []
      · rw [hnil, List.append_nil] at hback
        exact .inr (hback ▸ List.prefix_rfl)
      · have hwhole : back = delimiters.chars mark := by
          by_contra hne
          exact hapart.not_prefix mark other back hsuffix hnil hne hbegins
        refine .inl ⟨?_, hpart hwhole⟩
        by_contra hne
        exact hapart.not_infix mark other hne (hwhole ▸ hbegins.isInfix)
    · by_cases hsame : mark = other
      · subst hsame
        exact .inl ⟨rfl, hpart (hsuffix.eq_of_length_le hinside.length_le)⟩
      · have hinfix := hinside.isInfix.trans hsuffix.isInfix
        exact absurd hinfix (hapart.not_infix other mark (Ne.symm hsame))

/-- Three different characters cannot overlap. -/
theorem nonOverlapping_of_signs {signs : Signs} (hspelled : delimiters.SpelledBy signs)
    (hdistinct : [signs.opening, signs.closing, signs.separator].Nodup) :
    delimiters.NonOverlapping := by
  have hne : ∀ mark other, mark ≠ other → signs.char mark ≠ signs.char other := by
    intro mark other hne heq
    have := Signs.tokenOf_char hdistinct mark
    rw [heq, Signs.tokenOf_char hdistinct other] at this
    exact hne (Token.mark.inj this).symm
  refine ⟨fun mark other hmarks heq => ?_, fun mark other back hback hnil hproper => ?_,
    fun mark other hmarks hinfix => ?_⟩
  · rw [hspelled mark, hspelled other] at heq
    exact hne mark other hmarks (List.singleton_inj.mp heq)
  · rw [hspelled mark] at hback hproper
    rcases List.suffix_cons_iff.mp hback with heq | hback
    · exact absurd heq hproper
    · exact absurd (List.suffix_nil.mp hback) hnil
  · rw [hspelled mark, hspelled other, List.singleton_infix_iff, List.mem_singleton] at hinfix
    exact hne mark other hmarks hinfix

end Delimiters

/-- Some lexeme of a row without gaps covers each byte. -/
theorem Contiguous.exists_covering {last first : Nat} {lexemes : List Lexeme}
    (hcontiguous : Contiguous last first lexemes) {position : Nat} (hfirst : first ≤ position)
    (hlast : position < last) :
    ∃ lexeme ∈ lexemes, lexeme.start ≤ position ∧ position < lexeme.stop := by
  induction lexemes generalizing first with
  | nil =>
    obtain rfl : first = last := hcontiguous
    omega
  | cons lexeme rest ih =>
    obtain ⟨rfl, hrest⟩ := hcontiguous
    by_cases hstop : position < lexeme.stop
    · exact ⟨lexeme, List.mem_cons_self, hfirst, hstop⟩
    · obtain ⟨later, hmem, hcovers⟩ := ih hrest (Nat.le_of_not_lt hstop)
      exact ⟨later, List.mem_cons_of_mem _ hmem, hcovers⟩

namespace Markers

variable {markers : Markers} {text : String} {mark other : Mark} {first second position : Nat}

/-- A text that a marker begins in goes on to where the marker ends. -/
theorem le_utf8ByteSize_of_beginsAt (hbegins : Text.BeginsAt (markers.get mark.role) text position) :
    position + byteLength (markers.delimiters.chars mark) ≤ text.utf8ByteSize := by
  obtain ⟨before, after, rfl, rfl⟩ := hbegins
  rw [String.utf8ByteSize_append, String.utf8ByteSize_append, ← toList_get_role,
    ← utf8ByteSize_eq_byteLength]
  omega

/-- Two occurrences of markers that cannot overlap are the same, or one ends before the other. -/
theorem eq_or_le_of_beginsAt (hapart : markers.delimiters.NonOverlapping)
    (hfirst : Text.BeginsAt (markers.get mark.role) text first)
    (hsecond : Text.BeginsAt (markers.get other.role) text second) (hle : first ≤ second) :
    (mark = other ∧ first = second) ∨
      first + byteLength (markers.delimiters.chars mark) ≤ second := by
  obtain ⟨before, rest, htext, rfl⟩ := Text.isBoundary_iff.mp hfirst.isBoundary
  obtain ⟨part, after, rfl, rfl⟩ :=
    Text.exists_split_of_isBoundary htext hsecond.isBoundary hle
  rw [Text.beginsAt_byteLength_iff htext, toList_get_role] at hfirst
  have htext' : text.toList = (before ++ part) ++ after := by rw [htext, List.append_assoc]
  rw [← byteLength_append, Text.beginsAt_byteLength_iff htext', toList_get_role] at hsecond
  rcases hapart.prefix_of_prefix hfirst hsecond with ⟨rfl, rfl⟩ | ⟨more, rfl⟩
  · exact .inl ⟨rfl, rfl⟩
  · rw [byteLength_append]
    omega

variable (markers text mark)

/-- The byte offsets at which the tokens of a text that are a mark begin. -/
def starts : List Nat :=
  ((markers.lexemes text).filter (·.token = .mark mark)).map Lexeme.start

/-- There are as many of them as tokens that are this mark. -/
theorem length_starts :
    (markers.starts text mark).length = (markers.tokens text).count (.mark mark) := by
  rw [starts, List.length_map, ← List.countP_eq_length_filter, tokens, List.count, List.countP_map]
  rfl

variable {markers text mark}

/-- The starts of a mark are those of its lexemes. -/
theorem mem_starts_iff :
    position ∈ markers.starts text mark ↔
      ∃ stop, ⟨.mark mark, position, stop⟩ ∈ markers.lexemes text := by
  simp only [starts, List.mem_map, List.mem_filter, decide_eq_true_eq]
  constructor
  · rintro ⟨⟨_, _, stop⟩, ⟨hmem, rfl⟩, rfl⟩
    exact ⟨stop, hmem⟩
  · rintro ⟨stop, hmem⟩
    exact ⟨_, ⟨hmem, rfl⟩, rfl⟩

/-- A mark begins where it is a token, and goes on to where the token stops. -/
theorem beginsAt_of_mem_lexemes {stop : Nat}
    (hmem : ⟨.mark mark, position, stop⟩ ∈ markers.lexemes text) :
    Text.BeginsAt (markers.get mark.role) text position ∧
      stop = position + byteLength (markers.delimiters.chars mark) := by
  obtain ⟨before, right, -, htext, hstart, hstop⟩ := exists_cut_of_mem_lexemes hmem
  rw [show position = byteLength before from hstart, Text.beginsAt_byteLength_iff htext,
    toList_get_role]
  exact ⟨List.prefix_append _ _, hstop⟩

/-- Each occurrence of a marker that cannot overlap with others is a token. -/
theorem mem_starts_of_beginsAt (hapart : markers.delimiters.NonOverlapping)
    (hbegins : Text.BeginsAt (markers.get mark.role) text position) :
    position ∈ markers.starts text mark := by
  have htiling := tiling_lexemes markers text
  have hpos := byteLength_pos (markers.delimiters.chars_ne_nil mark)
  have hend := le_utf8ByteSize_of_beginsAt hbegins
  obtain ⟨⟨chunk | other, start, stop⟩, hmem, hstart, hstop⟩ :=
    htiling.contiguous.exists_covering (Nat.zero_le position) (by omega)
  · exact absurd hbegins (htiling.run_clear _ _ _ hmem _ hstart hstop mark)
  · obtain ⟨hother, rfl⟩ := beginsAt_of_mem_lexemes hmem
    rcases eq_or_le_of_beginsAt hapart hother hbegins hstart with ⟨rfl, rfl⟩ | hle
    · exact mem_starts_iff.mpr ⟨_, hmem⟩
    · exact absurd hstop (Nat.not_lt.mpr hle)

/-- The tokens that are a mark begin where the marker occurs. -/
theorem starts_eq_occurrences (hapart : markers.delimiters.NonOverlapping) :
    markers.starts text mark = Text.occurrences (markers.get mark.role) text := by
  have hstarts : (markers.starts text mark).Pairwise (· < ·) :=
    List.pairwise_map.mpr ((markers.pairwise_start_lexemes text).filter _)
  apply hstarts.eq_of_mem_iff (Text.pairwise_occurrencesFrom _ _ _)
  intro position
  rw [← Text.occurrences, Text.mem_occurrences_iff]
  refine ⟨fun hmem => ?_, mem_starts_of_beginsAt hapart⟩
  obtain ⟨stop, hmem⟩ := mem_starts_iff.mp hmem
  exact (beginsAt_of_mem_lexemes hmem).1

/-- The balance is the number of occurrences of the opening marker less those of the closing one. -/
theorem balance_eq_occurrences (hapart : markers.delimiters.NonOverlapping) (text : String) :
    markers.balance text = ((Text.occurrences (markers.get .opening) text).length : Int) -
      (Text.occurrences (markers.get .closing) text).length := by
  have hlength (mark : Mark) : (markers.tokens text).count (.mark mark) =
      (Text.occurrences (markers.get mark.role) text).length := by
    rw [← length_starts, starts_eq_occurrences hapart]
  rw [balance_eq_depth, depth, List.take_length, Spintax.depth, ← tokens, hlength, hlength]
  rfl

/-- Validation compares the two numbers of occurrences, when references are not to be checked. -/
theorem isValid_iff_occurrences (hapart : markers.delimiters.NonOverlapping) (text : String)
    (placeholders : Table) :
    (Spinner.mk text placeholders markers).isValid false = true ↔
      (Text.occurrences (markers.get .opening) text).length =
        (Text.occurrences (markers.get .closing) text).length := by
  have hbalance : (Spinner.mk text placeholders markers).balance = _ :=
    balance_eq_occurrences hapart text
  rw [Spinner.isValid_iff, hbalance, Int.sub_eq_zero, Int.natCast_inj]
  simp

/-- No two occurrences of markers share a character in any text. -/
def NeverOverlap (markers : Markers) : Prop :=
  ∀ (text : String) (mark other : Mark) (first second : Nat),
    Text.BeginsAt (markers.get mark.role) text first →
    Text.BeginsAt (markers.get other.role) text second → first ≤ second →
      (mark = other ∧ first = second) ∨
        first + byteLength (markers.delimiters.chars mark) ≤ second

/-- In a text that is cut in two, one marker may begin at the first byte and another at the cut. -/
theorem NeverOverlap.eq_or_le (hnever : markers.NeverOverlap) {front rest : List Char}
    (hmark : markers.delimiters.chars mark <+: front ++ rest)
    (hother : markers.delimiters.chars other <+: rest) :
    (mark = other ∧ front = []) ∨
      byteLength (markers.delimiters.chars mark) ≤ byteLength front := by
  have htext : (String.ofList (front ++ rest)).toList = front ++ rest := String.toList_ofList
  rw [← toList_get_role] at hmark hother
  have hends := hnever _ mark other _ _
    ((Text.beginsAt_byteLength_iff (htext.trans (List.nil_append _).symm)).mpr hmark)
    ((Text.beginsAt_byteLength_iff htext).mpr hother) (Nat.zero_le _)
  rw [byteLength_nil, Nat.zero_add] at hends
  refine hends.imp_left fun ⟨hsame, hzero⟩ => ⟨hsame, ?_⟩
  by_contra hne
  exact Nat.ne_of_lt (byteLength_pos hne) hzero

/-- Markers can overlap in no text just when their ends begin none of them and none is a part of
another. -/
theorem neverOverlap_iff : markers.NeverOverlap ↔ markers.delimiters.NonOverlapping := by
  constructor
  · intro hnever
    have hinfix : ∀ mark other, mark ≠ other →
        ¬ markers.delimiters.chars mark <:+: markers.delimiters.chars other := by
      rintro mark other hne ⟨front, back, hwhole⟩
      rw [List.append_assoc] at hwhole
      have hother : markers.delimiters.chars other <+:
          front ++ (markers.delimiters.chars mark ++ back) := hwhole ▸ List.prefix_rfl
      rcases hnever.eq_or_le hother (List.prefix_append _ back) with ⟨hsame, -⟩ | hle
      · exact hne hsame.symm
      · rw [← hwhole] at hle
        have hnil := eq_nil_of_byteLength_append_le hle
        exact markers.delimiters.chars_ne_nil mark (List.append_eq_nil_iff.mp hnil).1
    refine ⟨fun mark other hne heq => hinfix mark other hne (heq ▸ List.infix_rfl), ?_, hinfix⟩
    rintro mark other back ⟨front, hfront⟩ hback hproper hbegins
    have hmark : markers.delimiters.chars mark <+: front ++ markers.delimiters.chars other := by
      rwa [← hfront, List.prefix_append_right_inj]
    rcases hnever.eq_or_le hmark List.prefix_rfl with ⟨-, rfl⟩ | hle
    · exact hproper hfront
    · rw [← hfront] at hle
      exact hback (eq_nil_of_byteLength_append_le hle)
  · intro hapart text mark other first second hfirst hsecond hle
    exact eq_or_le_of_beginsAt hapart hfirst hsecond hle

/-- When no two occurrences of markers can overlap, marks begin just where markers occur.

So the balance is a difference of two numbers of occurrences. No overlap is possible if no end of a marker
begins another and none is a part of another; so it is with three different characters. -/
theorem starts_are_occurrences (markers : Markers) :
    (markers.NeverOverlap ↔ markers.delimiters.NonOverlapping) ∧
    (∀ signs, markers.delimiters.SpelledBy signs →
      [signs.opening, signs.closing, signs.separator].Nodup → markers.delimiters.NonOverlapping) ∧
    (markers.delimiters.NonOverlapping → ∀ text,
      (∀ mark, markers.starts text mark = Text.occurrences (markers.get mark.role) text ∧
        ∀ position, position ∈ markers.starts text mark ↔
          Text.BeginsAt (markers.get mark.role) text position) ∧
      markers.balance text = ((Text.occurrences (markers.get .opening) text).length : Int) -
        (Text.occurrences (markers.get .closing) text).length ∧
      ∀ placeholders tape, ∃ events, (Spinner.mk text placeholders markers).validate false tape =
        .ok (decide ((Text.occurrences (markers.get .opening) text).length =
          (Text.occurrences (markers.get .closing) text).length)) { tape with events := events }) := by
  refine ⟨neverOverlap_iff, fun signs => Delimiters.nonOverlapping_of_signs,
    fun hapart text => ⟨fun mark => ⟨starts_eq_occurrences hapart, fun position => ?_⟩, ?_, ?_⟩⟩
  · rw [starts_eq_occurrences hapart, Text.mem_occurrences_iff]
  · exact balance_eq_occurrences hapart text
  · intro placeholders tape
    obtain ⟨events, hvalidate⟩ :=
      (Spinner.mk text placeholders markers).exists_validate_eq false tape
    have hvalid := isValid_iff_occurrences hapart text placeholders
    rw [Bool.eq_iff_iff.mpr (hvalid.trans decide_eq_true_iff.symm)] at hvalidate
    exact ⟨events, hvalidate⟩

/-- Markers of two characters each, one of them twice in a row, and a character of two bytes. -/
theorem starts_are_occurrences_long :
    ∃ markers : Markers, markers.texts = ⟨"<(", ")>", "|", "~"⟩ ∧
      markers.delimiters.NonOverlapping ∧
      markers.starts "<<(é|)>)>" .closing = [6, 8] ∧ markers.balance "<<(é|)>)>" = -1 := by
  let markers : Markers := ⟨⟨"<(", ")>", "|", "~"⟩, fun role => by cases role <;> decide⟩
  have hapart : markers.delimiters.NonOverlapping := by decide
  obtain ⟨hstarts, hbalance, -⟩ := (starts_are_occurrences markers).2.2 hapart "<<(é|)>)>"
  refine ⟨markers, rfl, hapart, (hstarts .closing).1.trans ?_, hbalance.trans ?_⟩
  · decide
  · decide

end Markers

end Spintax
