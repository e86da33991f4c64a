import Mathlib.Data.List.Infix
import Mathlib.Order.Basic
import Spintax.Proofs.Tiling
import Spintax.Spinner

/-!
# The depth of nesting

The depth behind a token is the number of opening markers less the number of closing markers up to
there. The structure check keeps the starts of the unpaired opening markers; there are as many of
them as the depth says, and the last of the list is the one behind which the depth has been positive
ever since. So the check blames the closing marker that takes the depth below zero, and failing that
the earliest opening marker behind which the depth never comes back to what it was before.
-/

namespace Spintax

/-- Opening markers minus closing markers among the lexemes. -/
def depth (lexemes : List Lexeme) : Int :=
  ((lexemes.map Lexeme.token).count (.mark .opening) : Int) -
    (lexemes.map Lexeme.token).count (.mark .closing)

/-- The closing marker at byte `start` is the first lexeme behind which the depth is negative. -/
def FirstBelow (lexemes : List Lexeme) (start : Nat) : Prop :=
  ∃ i stop, lexemes[i]? = some ⟨.mark .closing, start, stop⟩ ∧ depth (lexemes.take (i + 1)) < 0 ∧
    ∀ j ≤ i, 0 ≤ depth (lexemes.take j)

/-- The lexeme `i` is an opening marker at byte `start`, and nowhere behind it is the depth what it
was in front of it. -/
def NeverClosed (lexemes : List Lexeme) (i start : Nat) : Prop :=
  (∃ stop, lexemes[i]? = some ⟨.mark .opening, start, stop⟩) ∧
    ∀ j, i < j → depth (lexemes.take j) ≠ depth (lexemes.take i)

/-- The opening marker at byte `start` is the earliest that is never closed. -/
def EarliestNeverClosed (lexemes : List Lexeme) (start : Nat) : Prop :=
  ∃ i, NeverClosed lexemes i start ∧ ∀ k < i, ∀ other, ¬ NeverClosed lexemes k other

/-- No token takes away more than one level. -/
theorem Token.neg_one_le_weight (token : Token) : -1 ≤ token.weight := by
  rcases token with chunk | _ | _ | _ <;> simp [weight]

/-- One more lexeme changes the depth by its weight. -/
theorem depth_concat (lexemes : List Lexeme) (lexeme : Lexeme) :
    depth (lexemes ++ [lexeme]) = depth lexemes + lexeme.token.weight := by
  obtain ⟨chunk | mark, start, stop⟩ := lexeme
  · simp [depth, Token.weight, List.count_append]
  · cases mark <;> simp [depth, Token.weight, List.count_append] <;> omega

/-- One lexeme in front changes the depth by its weight, too. -/
theorem depth_cons (lexeme : Lexeme) (lexemes : List Lexeme) :
    depth (lexeme :: lexemes) = lexeme.token.weight + depth lexemes := by
  obtain ⟨chunk | mark, start, stop⟩ := lexeme
  · simp [depth, Token.weight]
  · cases mark <;> simp [depth, Token.weight] <;> omega

/-- One more token changes the depth by its weight. -/
theorem depth_take_succ {lexemes : List Lexeme} {i : Nat} {lexeme : Lexeme}
    (hlexeme : lexemes[i]? = some lexeme) :
    depth (lexemes.take (i + 1)) = depth (lexemes.take i) + lexeme.token.weight := by
  rw [List.take_add_one, hlexeme, Option.toList_some, depth_concat]

/-- No lexeme takes the depth down by more than one. -/
theorem depth_take_le_succ (lexemes : List Lexeme) (i : Nat) :
    depth (lexemes.take i) ≤ depth (lexemes.take (i + 1)) + 1 := by
  cases hlexeme : lexemes[i]? with
  | none =>
    rw [List.take_add_one, hlexeme, Option.toList_none, List.append_nil]
    omega
  | some lexeme =>
    have hweight := lexeme.token.neg_one_le_weight
    rw [depth_take_succ hlexeme]
    omega

/-- On its way down the depth takes every value in between. -/
theorem exists_depth_take_eq {lexemes : List Lexeme} {value : Int} {i k : Nat} (hik : i ≤ k)
    (habove : value < depth (lexemes.take i)) (hbelow : depth (lexemes.take k) ≤ value) :
    ∃ j, i < j ∧ j ≤ k ∧ depth (lexemes.take j) = value := by
  induction k, hik using Nat.le_induction with
  | base => omega
  | succ k hik ih =>
    by_cases hearlier : depth (lexemes.take k) ≤ value
    · obtain ⟨j, hij, hjk, hvalue⟩ := ih hearlier
      exact ⟨j, hij, Nat.le_succ_of_le hjk, hvalue⟩
    · have hstep := depth_take_le_succ lexemes k
      exact ⟨k + 1, Nat.lt_succ_of_le hik, Nat.le_refl _, by omega⟩

/-- What the starts of the unpaired opening markers say about the lexemes followed so far. -/
structure Followed (lexemes : List Lexeme) (unpaired : List Nat) : Prop where
  nonneg : ∀ front, front <+: lexemes → 0 ≤ depth front
  length_eq : (unpaired.length : Int) = depth lexemes
  earliest : ∀ start, unpaired.getLast? = some start → ∃ front stop,
    front ++ [⟨.mark .opening, start, stop⟩] <+: lexemes ∧ depth front = 0 ∧
      ∀ longer, front ++ [⟨.mark .opening, start, stop⟩] <+: longer → longer <+: lexemes →
        0 < depth longer

namespace Followed

variable {lexemes : List Lexeme} {unpaired after : List Nat} {lexeme : Lexeme} {start stop : Nat}

/-- Before the first lexeme no opening marker is unpaired. -/
theorem nil : Followed [] [] where
  nonneg := by
    intro front hfront
    rw [List.prefix_nil.mp hfront]
    exact Int.le_refl 0
  length_eq := rfl
  earliest := by
    intro start hlast
    cases hlast

/-- A lexeme that leaves the earliest unpaired opening marker what it is, if there is one left. -/
theorem concat (hfollowed : Followed lexemes unpaired)
    (hlength : (after.length : Int) = depth lexemes + lexeme.token.weight)
    (hlast : ∀ start, after.getLast? = some start → unpaired.getLast? = some start) :
    Followed (lexemes ++ [lexeme]) after where
  nonneg := by
    intro front hfront
    rcases List.prefix_concat_iff.mp hfront with rfl | hfront
    · rw [depth_concat, ← hlength]
      exact Int.natCast_nonneg _
    · exact hfollowed.nonneg front hfront
  length_eq := by rw [hlength, depth_concat]
  earliest := by
    intro start hstart
    obtain ⟨front, stop, hwithin, hfront, hlonger⟩ := hfollowed.earliest start (hlast start hstart)
    refine ⟨front, stop, hwithin.trans (List.prefix_append _ _), hfront, ?_⟩
    intro longer hbegins hends
    rcases List.prefix_concat_iff.mp hends with rfl | hends
    · have hpos := List.length_pos_of_mem (List.mem_of_getLast? hstart)
      rw [depth_concat, ← hlength]
      omega
    · exact hlonger longer hbegins hends

/-- An opening marker outside all groups is the earliest unpaired one. -/
theorem concat_opening (hfollowed : Followed lexemes []) :
    Followed (lexemes ++ [⟨.mark .opening, start, stop⟩]) [start] where
  nonneg := by
    intro front hfront
    have hdepth := hfollowed.length_eq
    rcases List.prefix_concat_iff.mp hfront with rfl | hfront
    · rw [depth_concat, ← hdepth]
      exact Int.one_nonneg
    · exact hfollowed.nonneg front hfront
  length_eq := by
    rw [depth_concat, ← hfollowed.length_eq]
    rfl
  earliest := by
    intro first hfirst
    obtain rfl : start = first := by simpa using hfirst
    refine ⟨lexemes, stop, List.prefix_rfl, hfollowed.length_eq.symm, ?_⟩
    intro longer hbegins hends
    rw [hends.eq_of_length_le hbegins.length_le, depth_concat, ← hfollowed.length_eq]
    exact Int.one_pos

end Followed

/-- What an answer of the structure check says about the lexemes. -/
def Explains (lexemes : List Lexeme) : Except Malformed Unit → Prop
  | .ok () => Followed lexemes []
  | .error ⟨.opening, start⟩ => ∃ unpaired,
    unpaired.getLast? = some start ∧ Followed lexemes unpaired
  | .error ⟨.closing, start⟩ => ∃ front stop,
    front ++ [⟨.mark .closing, start, stop⟩] <+: lexemes ∧ Followed front []

/-- The answer of the structure check says where it came to an end. -/
theorem explains_checkLexemes {before : List Lexeme} {unpaired : List Nat}
    (hfollowed : Followed before unpaired) (rest : List Lexeme) :
    Explains (before ++ rest) (checkLexemes unpaired rest) := by
  induction rest generalizing before unpaired with
  | nil =>
    rw [checkLexemes, List.append_nil]
    cases hlast : unpaired.getLast? with
    | none =>
      rw [List.getLast?_eq_none_iff.mp hlast] at hfollowed
      exact hfollowed
    | some start => exact ⟨unpaired, hlast, hfollowed⟩
  | cons lexeme rest ih =>
    rw [List.append_cons]
    obtain ⟨chunk | mark, start, stop⟩ := lexeme
    · have hcheck : checkLexemes unpaired (⟨.text chunk, start, stop⟩ :: rest) =
          checkLexemes unpaired rest := by cases unpaired <;> rfl
      rw [hcheck]
      exact ih (hfollowed.concat (by simp [hfollowed.length_eq, Token.weight]) fun _ => id)
    · cases mark with
      | opening =>
        rw [show checkLexemes unpaired (⟨.mark .opening, start, stop⟩ :: rest) =
          checkLexemes (start :: unpaired) rest from rfl]
        apply ih
        cases unpaired with
        | nil => exact hfollowed.concat_opening
        | cons inner outer =>
          refine hfollowed.concat ?_ fun first hfirst => ?_
          · rw [← hfollowed.length_eq]
            rfl
          · rwa [List.getLast?_cons_cons] at hfirst
      | separator =>
        have hcheck : checkLexemes unpaired (⟨.mark .separator, start, stop⟩ :: rest) =
            checkLexemes unpaired rest := by cases unpaired <;> rfl
        rw [hcheck]
        exact ih (hfollowed.concat (by simp [hfollowed.length_eq, Token.weight]) fun _ => id)
      | closing =>
        cases unpaired with
        | nil => exact ⟨before, stop, List.prefix_append _ rest, hfollowed⟩
        | cons inner outer =>
          rw [show checkLexemes (inner :: outer) (⟨.mark .closing, start, stop⟩ :: rest) =
            checkLexemes outer rest from rfl]
          apply ih
          have hlength := hfollowed.length_eq
          rw [List.length_cons] at hlength
          refine hfollowed.concat ?_ fun first hfirst => ?_
          · rw [← hlength, Token.weight]
            omega
          · cases outer with
            | nil => cases hfirst
            | cons => rwa [List.getLast?_cons_cons]

/-- The lexeme behind the first ones, and what these are. -/
theorem take_of_concat_prefix {lexemes front : List Lexeme} {lexeme : Lexeme}
    (hwithin : front ++ [lexeme] <+: lexemes) :
    lexemes[front.length]? = some lexeme ∧ lexemes.take front.length = front ∧
      lexemes.take (front.length + 1) = front ++ [lexeme] := by
  obtain ⟨back, rfl⟩ := hwithin
  simp [List.take_append]

/-- A closing marker in front of which nothing is unpaired is the first that takes the depth below
zero. -/
theorem firstBelow_of_followed {lexemes front : List Lexeme} {start stop : Nat}
    (hwithin : front ++ [⟨.mark .closing, start, stop⟩] <+: lexemes)
    (hfollowed : Followed front []) : FirstBelow lexemes start := by
  obtain ⟨hlexeme, hfront, hnext⟩ := take_of_concat_prefix hwithin
  refine ⟨front.length, stop, hlexeme, ?_, fun j hj => hfollowed.nonneg _ ?_⟩
  · rw [hnext, depth_concat, ← hfollowed.length_eq]
    simp [Token.weight]
  · have htake := List.take_prefix_take_left (l := lexemes) hj
    rwa [hfront] at htake

/-- The last of the unpaired opening markers is the earliest that is never closed. -/
theorem earliestNeverClosed_of_followed {lexemes : List Lexeme} {unpaired : List Nat} {start : Nat}
    (hlast : unpaired.getLast? = some start) (hfollowed : Followed lexemes unpaired) :
    EarliestNeverClosed lexemes start := by
  obtain ⟨front, stop, hwithin, hzero, hlonger⟩ := hfollowed.earliest start hlast
  obtain ⟨hlexeme, hfront, hnext⟩ := take_of_concat_prefix hwithin
  refine ⟨front.length, ⟨⟨stop, hlexeme⟩, fun j hj => ?_⟩, ?_⟩
  · have hbehind := List.take_prefix_take_left (l := lexemes) (Nat.succ_le_of_lt hj)
    rw [Nat.succ_eq_add_one, hnext] at hbehind
    have hpos := hlonger _ hbehind (List.take_prefix j lexemes)
    rw [hfront, hzero]
    omega
  · rintro k hk other ⟨⟨stop, hopening⟩, hnever⟩
    -- From above its value in front of the marker `k`, the depth comes down to zero at `front`.
    have hnonneg := hfollowed.nonneg _ (List.take_prefix k lexemes)
    have hrises : depth (lexemes.take k) < depth (lexemes.take (k + 1)) := by
      rw [depth_take_succ hopening, Token.weight]
      omega
    have hfalls : depth (lexemes.take front.length) ≤ depth (lexemes.take k) := by
      rw [hfront, hzero]
      exact hnonneg
    obtain ⟨j, hkj, -, hreturns⟩ :=
      exists_depth_take_eq (Nat.succ_le_of_lt hk) hrises hfalls
    exact hnever j (by omega) hreturns

namespace Markers

variable (markers : Markers) (text : String)

/-- Opening markers minus closing markers among the first `count` tokens of a text. -/
def depth (count : Nat) : Int :=
  Spintax.depth ((markers.lexemes text).take count)

/-- The balance is the depth behind the last token. -/
theorem balance_eq_depth :
    markers.balance text = markers.depth text (markers.lexemes text).length := by
  rw [depth, List.take_length, balance]
  induction markers.lexemes text with
  | nil => rfl
  | cons lexeme rest ih => rw [List.foldr_cons, ih, depth_cons]

variable {markers text}

/-- What the answer of the structure check says about the tokens of the text. -/
theorem explains_checkPairing {answer : Except Malformed Unit}
    (hanswer : markers.checkPairing text = answer) : Explains (markers.lexemes text) answer :=
  hanswer ▸ explains_checkLexemes .nil (markers.lexemes text)

/-- A text that passes the structure check is nowhere below zero, and comes back to zero. -/
theorem depth_of_checkPairing (hsound : markers.checkPairing text = .ok ()) :
    (∀ count, 0 ≤ markers.depth text count) ∧
      markers.depth text (markers.lexemes text).length = 0 := by
  have hfollowed : Followed (markers.lexemes text) [] := explains_checkPairing hsound
  refine ⟨fun count => hfollowed.nonneg _ (List.take_prefix _ _), ?_⟩
  rw [depth, List.take_length, ← hfollowed.length_eq]
  rfl

/-- A text that passes the structure check has as many opening markers as closing markers. -/
theorem count_opening_of_checkPairing (hsound : markers.checkPairing text = .ok ()) :
    (markers.tokens text).count (.mark .opening) =
      (markers.tokens text).count (.mark .closing) := by
  have hzero := (depth_of_checkPairing hsound).2
  rw [depth, List.take_length, Spintax.depth, Int.sub_eq_zero] at hzero
  exact Int.ofNat_inj.mp hzero

/-- A text that the structure check blames an opening marker of is nowhere below zero, and ends
above zero. The marker is the earliest that is never closed. -/
theorem depth_of_checkPairing_opening {start : Nat}
    (hfault : markers.checkPairing text = .error ⟨.opening, start⟩) :
    (∀ count, 0 ≤ markers.depth text count) ∧
      0 < markers.depth text (markers.lexemes text).length ∧
      EarliestNeverClosed (markers.lexemes text) start := by
  obtain ⟨unpaired, hlast, hfollowed⟩ := explains_checkPairing hfault
  refine ⟨fun count => hfollowed.nonneg _ (List.take_prefix _ _), ?_,
    earliestNeverClosed_of_followed hlast hfollowed⟩
  have hpos := List.length_pos_of_mem (List.mem_of_getLast? hlast)
  rw [depth, List.take_length, ← hfollowed.length_eq]
  exact Int.natCast_pos.mpr hpos

/-- The closing marker that the structure check blames is the first that takes the depth below
zero. -/
theorem firstBelow_of_checkPairing {start : Nat}
    (hfault : markers.checkPairing text = .error ⟨.closing, start⟩) :
    FirstBelow (markers.lexemes text) start := by
  obtain ⟨front, stop, hwithin, hfollowed⟩ := explains_checkPairing hfault
  exact firstBelow_of_followed hwithin hfollowed

/-- The closing marker that the structure check blames takes the depth below zero. -/
theorem exists_depth_neg_of_checkPairing {start : Nat}
    (hfault : markers.checkPairing text = .error ⟨.closing, start⟩) :
    ∃ count, markers.depth text count < 0 := by
  obtain ⟨i, stop, -, hnegative, -⟩ := firstBelow_of_checkPairing hfault
  exact ⟨i + 1, hnegative⟩

variable (markers text)

/-- The structure check has three kinds of answer. -/
theorem checkPairing_cases :
    markers.checkPairing text = .ok () ∨
      (∃ start, markers.checkPairing text = .error ⟨.opening, start⟩) ∨
      ∃ start, markers.checkPairing text = .error ⟨.closing, start⟩ := by
  rcases hcheck : markers.checkPairing text with ⟨_ | _, start⟩ | _ <;> simp

/-- A closing marker is blamed when the depth is negative somewhere. -/
theorem checkPairing_closing_iff :
    (∃ start, markers.checkPairing text = .error ⟨.closing, start⟩) ↔
      ∃ count, markers.depth text count < 0 := by
  constructor
  · rintro ⟨start, hfault⟩
    exact exists_depth_neg_of_checkPairing hfault
  · rintro ⟨count, hnegative⟩
    rcases markers.checkPairing_cases text with hsound | ⟨start, hfault⟩ | hfault
    · exact absurd ((depth_of_checkPairing hsound).1 count) (Int.not_le.mpr hnegative)
    · exact absurd ((depth_of_checkPairing_opening hfault).1 count) (Int.not_le.mpr hnegative)
    · exact hfault

/-- An opening marker is blamed when the depth is never negative and positive at the end. -/
theorem checkPairing_opening_iff :
    (∃ start, markers.checkPairing text = .error ⟨.opening, start⟩) ↔
      (∀ count, 0 ≤ markers.depth text count) ∧
        0 < markers.depth text (markers.lexemes text).length := by
  constructor
  · rintro ⟨start, hfault⟩
    obtain ⟨hnonneg, hpositive, -⟩ := depth_of_checkPairing_opening hfault
    exact ⟨hnonneg, hpositive⟩
  · rintro ⟨hnonneg, hpositive⟩
    rcases markers.checkPairing_cases text with hsound | hfault | ⟨start, hfault⟩
    · exact absurd (depth_of_checkPairing hsound).2 (Int.ne_of_gt hpositive)
    · exact hfault
    · obtain ⟨count, hnegative⟩ := exists_depth_neg_of_checkPairing hfault
      exact absurd (hnonneg count) (Int.not_le.mpr hnegative)

/-- A text passes when the depth is never negative and zero at the end. -/
theorem checkPairing_ok_iff :
    markers.checkPairing text = .ok () ↔
      (∀ count, 0 ≤ markers.depth text count) ∧
        markers.depth text (markers.lexemes text).length = 0 := by
  refine ⟨depth_of_checkPairing, fun ⟨hnonneg, hzero⟩ => ?_⟩
  rcases markers.checkPairing_cases text with hsound | ⟨start, hfault⟩ | ⟨start, hfault⟩
  · exact hsound
  · exact absurd hzero (Int.ne_of_gt (depth_of_checkPairing_opening hfault).2.1)
  · obtain ⟨count, hnegative⟩ := exists_depth_neg_of_checkPairing hfault
    exact absurd (hnonneg count) (Int.not_le.mpr hnegative)

variable {markers text}

/-- A text that passes the structure check balances. -/
theorem balance_eq_zero_of_checkPairing (hsound : markers.checkPairing text = .ok ()) :
    markers.balance text = 0 := by
  rw [balance_eq_depth, (depth_of_checkPairing hsound).2]

/-- A text with an opening marker that is never closed has a positive balance. -/
theorem balance_pos_of_checkPairing {start : Nat}
    (hfault : markers.checkPairing text = .error ⟨.opening, start⟩) : 0 < markers.balance text := by
  rw [balance_eq_depth]
  exact (depth_of_checkPairing_opening hfault).2.1

/-- Validation objects to a text that does not balance. -/
theorem exists_validate_of_balance_ne_zero (hbalance : markers.balance text ≠ 0)
    (placeholders : Table) (checkPlaceholders : Bool) (tape : Tape) :
    ∃ events, (Spinner.mk text placeholders markers).validate checkPlaceholders tape =
      .ok false { tape with events := events } := by
  obtain ⟨events, hvalidate⟩ :=
    (Spinner.mk text placeholders markers).exists_validate_eq checkPlaceholders tape
  have hinvalid : (Spinner.mk text placeholders markers).isValid checkPlaceholders = false := by
    rw [Bool.eq_false_iff]
    intro hvalid
    exact hbalance (Spinner.isValid_iff.mp hvalid).1
  rw [hinvalid] at hvalidate
  exact ⟨events, hvalidate⟩

variable (markers text)

/-- The structure check measures the depth, and blames the right marker.

A closing marker is blamed where the depth first becomes negative, and failing that an opening marker that
is the earliest never closed. The balance is the depth at the end. -/
theorem checkPairing_measures_depth :
    ((∃ start, markers.checkPairing text = .error ⟨.closing, start⟩) ↔
      ∃ count, markers.depth text count < 0) ∧
    (∀ start, markers.checkPairing text = .error ⟨.closing, start⟩ →
      FirstBelow (markers.lexemes text) start) ∧
    ((∃ start, markers.checkPairing text = .error ⟨.opening, start⟩) ↔
      (∀ count, 0 ≤ markers.depth text count) ∧
        0 < markers.depth text (markers.lexemes text).length) ∧
    (∀ start, markers.checkPairing text = .error ⟨.opening, start⟩ →
      EarliestNeverClosed (markers.lexemes text) start) ∧
    (markers.checkPairing text = .ok () ↔
      (∀ count, 0 ≤ markers.depth text count) ∧
        markers.depth text (markers.lexemes text).length = 0) ∧
    (markers.checkPairing text = .ok () → markers.balance text = 0) ∧
    ∀ start, markers.checkPairing text = .error ⟨.opening, start⟩ →
      0 < markers.balance text ∧
        ∀ placeholders tape, ∃ events, (Spinner.mk text placeholders markers).validate false tape =
          .ok false { tape with events := events } := by
  refine ⟨markers.checkPairing_closing_iff text, fun start => firstBelow_of_checkPairing,
    markers.checkPairing_opening_iff text, fun start hfault => ?_, markers.checkPairing_ok_iff text,
    balance_eq_zero_of_checkPairing, fun start hfault => ?_⟩
  · exact (depth_of_checkPairing_opening hfault).2.2
  · have hbalance := balance_pos_of_checkPairing hfault
    exact ⟨hbalance, fun placeholders =>
      exists_validate_of_balance_ne_zero (Int.ne_of_gt hbalance) placeholders false⟩

end Markers

end Spintax
