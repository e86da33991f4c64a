import Mathlib.Data.Set.Card
import Spintax.Proofs.Depth
import Spintax.Proofs.Log

/-!
# The pairs of group markers

A closing marker pairs with an earlier opening marker when the tokens strictly between the two are
properly nested: the depth among them is never negative and comes back to zero. There is never more
than one such opening marker, and the stretches between paired markers lie inside one another or
apart. A separator belongs to the pair around it when no other pair stands between.

While a text is resolved, every group that is open has an opening marker behind which the depth has
not fallen since. The groups are one level apart, the innermost at the present depth, and each has
counted the separators at its own level. So the event that a closing marker brings tells of the pair
that it completes.
-/

namespace Spintax

/-- The token at a place among the lexemes. -/
def tokenAt? (lexemes : List Lexeme) (i : Nat) : Option Token :=
  lexemes[i]?.map Lexeme.token

/-- Lexemes whose group markers pair up among themselves. -/
structure WellNested (lexemes : List Lexeme) : Prop where
  nonneg : ∀ count, 0 ≤ depth (lexemes.take count)
  settled : depth lexemes = 0

/-- The closing marker at place `j` pairs with the opening marker at place `i`: the lexemes strictly
between them are properly nested. -/
structure Encloses (lexemes : List Lexeme) (i j : Nat) : Prop where
  lt : i < j
  opening : tokenAt? lexemes i = some (.mark .opening)
  closing : tokenAt? lexemes j = some (.mark .closing)
  nested : WellNested ((lexemes.drop (i + 1)).take (j - (i + 1)))

/-- The places of the separators between `i` and `j` that lie inside no group nested in between. -/
def ownSeparators (lexemes : List Lexeme) (i j : Nat) : Set Nat :=
  {k | i < k ∧ k < j ∧ tokenAt? lexemes k = some (.mark .separator) ∧
    ∀ a b, i < a → b < j → Encloses lexemes a b → ¬ (a < k ∧ k < b)}

/-- A call is for a closing marker and for the opening marker that this pairs with, the only one, and
it is for one alternative more than the pair has separators of its own. -/
def Describes (lexemes : List Lexeme) (call : Call) : Prop :=
  ∃ i j stop stop', lexemes[i]? = some ⟨.mark .opening, call.start, stop⟩ ∧
    lexemes[j]? = some ⟨.mark .closing, call.stop, stop'⟩ ∧
    (∀ k, Encloses lexemes k j ↔ k = i) ∧ call.count = (ownSeparators lexemes i j).ncard + 1

/-- The depth of two parts is the sum of their depths. -/
theorem depth_append (front back : List Lexeme) : depth (front ++ back) = depth front + depth back := by
  simp only [depth, List.map_append, List.count_append]
  omega

/-- The depth of a slice is the difference of the depths at its ends. -/
theorem depth_take_drop (lexemes : List Lexeme) (first count : Nat) :
    depth ((lexemes.drop first).take count) =
      depth (lexemes.take (first + count)) - depth (lexemes.take first) := by
  rw [List.take_add, depth_append]
  omega

section

variable {lexemes : List Lexeme} {i j : Nat}

/-- The token at a place is that of the lexeme there. -/
theorem tokenAt?_of_getElem? {lexeme : Lexeme} (hlexeme : lexemes[i]? = some lexeme) :
    tokenAt? lexemes i = some lexeme.token := by
  rw [tokenAt?, hlexeme, Option.map_some]

/-- The depth changes by the weight of the token at a place. -/
theorem depth_take_of_tokenAt? {token : Token} (htoken : tokenAt? lexemes i = some token) :
    depth (lexemes.take (i + 1)) = depth (lexemes.take i) + token.weight := by
  obtain ⟨lexeme, hlexeme, rfl⟩ := Option.map_eq_some_iff.mp htoken
  exact depth_take_succ hlexeme

/-- Past an opening marker the depth is one more. -/
theorem depth_take_opening (hopening : tokenAt? lexemes i = some (.mark .opening)) :
    depth (lexemes.take (i + 1)) = depth (lexemes.take i) + 1 :=
  depth_take_of_tokenAt? hopening

/-- Past a closing marker the depth is one less. -/
theorem depth_take_closing (hclosing : tokenAt? lexemes i = some (.mark .closing)) :
    depth (lexemes.take (i + 1)) = depth (lexemes.take i) - 1 :=
  depth_take_of_tokenAt? hclosing

/-- Where the depth rises there is an opening marker, and it rises by one. -/
theorem opening_of_depth_lt (hrises : depth (lexemes.take i) < depth (lexemes.take (i + 1))) :
    tokenAt? lexemes i = some (.mark .opening) := by
  cases htoken : tokenAt? lexemes i with
  | none =>
    rw [tokenAt?, Option.map_eq_none_iff] at htoken
    rw [List.take_add_one, htoken, Option.toList_none, List.append_nil] at hrises
    omega
  | some token =>
    rw [depth_take_of_tokenAt? htoken] at hrises
    obtain chunk | _ | _ | _ := token <;> simp [Token.weight] at hrises ⊢

/-- Where the depth falls there is a closing marker, and it falls by one. -/
theorem closing_of_depth_lt (hfalls : depth (lexemes.take (i + 1)) < depth (lexemes.take i)) :
    tokenAt? lexemes i = some (.mark .closing) := by
  cases htoken : tokenAt? lexemes i with
  | none =>
    rw [tokenAt?, Option.map_eq_none_iff] at htoken
    rw [List.take_add_one, htoken, Option.toList_none, List.append_nil] at hfalls
    omega
  | some token =>
    rw [depth_take_of_tokenAt? htoken] at hfalls
    obtain chunk | _ | _ | _ := token <;> simp [Token.weight] at hfalls ⊢

/-- What stands between two places is properly nested when the depth does not fall behind the first
of them and is the same in front of the second. -/
theorem wellNested_between_iff (hlt : i < j) :
    WellNested ((lexemes.drop (i + 1)).take (j - (i + 1))) ↔
      (∀ k, i < k → k ≤ j → depth (lexemes.take (i + 1)) ≤ depth (lexemes.take k)) ∧
        depth (lexemes.take j) = depth (lexemes.take (i + 1)) := by
  have hwhole : i + 1 + (j - (i + 1)) = j := by omega
  constructor
  · rintro ⟨hnonneg, hsettled⟩
    rw [depth_take_drop, hwhole] at hsettled
    refine ⟨fun k hik hkj => ?_, by omega⟩
    have hdepth := hnonneg (k - (i + 1))
    have hcount : min (k - (i + 1)) (j - (i + 1)) = k - (i + 1) := by omega
    have hplace : i + 1 + (k - (i + 1)) = k := by omega
    rw [List.take_take, hcount, depth_take_drop, hplace] at hdepth
    omega
  · rintro ⟨habove, hlevel⟩
    refine ⟨fun count => ?_, by rw [depth_take_drop, hwhole]; omega⟩
    have hdepth := habove (i + 1 + min count (j - (i + 1))) (by omega) (by omega)
    rw [List.take_take, depth_take_drop]
    omega

/-- A closing marker pairs with an opening marker just when the depth in between never falls below that
behind the opening marker and comes back to it at the closing marker. -/
theorem encloses_iff : Encloses lexemes i j ↔
    i < j ∧ tokenAt? lexemes i = some (.mark .opening) ∧
      tokenAt? lexemes j = some (.mark .closing) ∧
      (∀ k, i < k → k ≤ j → depth (lexemes.take (i + 1)) ≤ depth (lexemes.take k)) ∧
      depth (lexemes.take j) = depth (lexemes.take (i + 1)) := by
  constructor
  · rintro ⟨hlt, hopening, hclosing, hnested⟩
    exact ⟨hlt, hopening, hclosing, (wellNested_between_iff hlt).mp hnested⟩
  · rintro ⟨hlt, hopening, hclosing, hdepth⟩
    exact ⟨hlt, hopening, hclosing, (wellNested_between_iff hlt).mpr hdepth⟩

namespace Encloses

/-- Of two pairs the one that is completed first stands in front of the other, or inside it. -/
theorem before_or_inside {i' j' : Nat} (hfirst : Encloses lexemes i j)
    (hsecond : Encloses lexemes i' j') (hlt : j < j') : j < i' ∨ i' < i := by
  obtain ⟨-, hopening, hclosing, habove, hlevel⟩ := encloses_iff.mp hfirst
  obtain ⟨-, hopening', -, habove', -⟩ := encloses_iff.mp hsecond
  by_contra hcross
  push Not at hcross
  obtain ⟨hle, hle'⟩ := hcross
  have hne : i' ≠ j := by
    rintro rfl
    cases hopening'.symm.trans hclosing
  -- Behind `j` the depth is below that behind `i'`, but the second pair is still open there.
  have hfalls := depth_take_closing hclosing
  have hbehind := habove' (j + 1) (by omega) (by omega)
  rcases hle'.eq_or_lt with rfl | hlt'
  · omega
  · have hrises := depth_take_opening hopening'
    have hinside := habove i' hlt' (by omega)
    omega

/-- A closing marker pairs with one opening marker only. -/
theorem opening_unique {i' : Nat} (hfirst : Encloses lexemes i j) (hsecond : Encloses lexemes i' j) :
    i = i' := by
  have hle : ∀ {a b : Nat}, Encloses lexemes a j → Encloses lexemes b j → a ≤ b := by
    intro a b hfirst hsecond
    obtain ⟨-, hopening, -, -, hlevel⟩ := encloses_iff.mp hfirst
    obtain ⟨hlt, -, -, habove, hlevel'⟩ := encloses_iff.mp hsecond
    by_contra hlt'
    have hrises := depth_take_opening hopening
    have hinside := habove a (by omega) hfirst.lt.le
    omega
  exact Nat.le_antisymm (hle hfirst hsecond) (hle hsecond hfirst)

end Encloses

/-- On its way up the depth passes every value in between at an opening marker, and stays above the
value behind the last of these. -/
theorem exists_opening_of_depth_lt {value : Int} {k : Nat} (hik : i ≤ k)
    (hbelow : depth (lexemes.take i) ≤ value) (habove : value < depth (lexemes.take k)) :
    ∃ a, i ≤ a ∧ a < k ∧ tokenAt? lexemes a = some (.mark .opening) ∧
      depth (lexemes.take a) = value ∧
      ∀ m, a < m → m ≤ k → value < depth (lexemes.take m) := by
  induction k, hik using Nat.le_induction with
  | base => omega
  | succ k hik ih =>
    by_cases hearlier : value < depth (lexemes.take k)
    · obtain ⟨a, hia, hak, hopening, hvalue, hstays⟩ := ih hearlier
      refine ⟨a, hia, Nat.lt_succ_of_lt hak, hopening, hvalue, fun m ham hmk => ?_⟩
      rcases Nat.le_succ_iff.mp hmk with hmk | rfl
      · exact hstays m ham hmk
      · exact habove
    · have hopening : tokenAt? lexemes k = some (.mark .opening) := opening_of_depth_lt (by omega)
      have hrises := depth_take_opening hopening
      refine ⟨k, hik, Nat.lt_succ_self k, hopening, by omega, fun m hkm hmk => ?_⟩
      obtain rfl : m = k + 1 := by omega
      exact habove

/-- On its way down the depth comes to a value from above for the first time behind a closing
marker. -/
theorem exists_closing_of_depth_le {value : Int} {k : Nat} (hkj : k ≤ j)
    (habove : value < depth (lexemes.take k)) (hbelow : depth (lexemes.take j) ≤ value) :
    ∃ b, k ≤ b ∧ b < j ∧ tokenAt? lexemes b = some (.mark .closing) ∧
      depth (lexemes.take b) = value + 1 ∧
      ∀ m, k ≤ m → m ≤ b → value < depth (lexemes.take m) := by
  have hfirst : ∃ m, k ≤ m ∧ depth (lexemes.take m) ≤ value := ⟨j, hkj, hbelow⟩
  obtain ⟨hk, hvalue⟩ := Nat.find_spec hfirst
  have hbefore (m : Nat) (hkm : k ≤ m) (hm : m < Nat.find hfirst) :
      value < depth (lexemes.take m) := by
    have := Nat.find_min hfirst hm
    push Not at this
    exact this hkm
  have hle : Nat.find hfirst ≤ j := Nat.find_min' hfirst ⟨hkj, hbelow⟩
  have hpos : k ≠ Nat.find hfirst := by
    intro heq
    rw [← heq] at hvalue
    omega
  obtain ⟨b, hb⟩ : ∃ b, Nat.find hfirst = b + 1 := Nat.exists_eq_succ_of_ne_zero (by omega)
  rw [hb] at hk hvalue hbefore hle hpos
  have hhere := hbefore b (by omega) (Nat.lt_succ_self b)
  have hclosing : tokenAt? lexemes b = some (.mark .closing) := closing_of_depth_lt (by omega)
  have hfalls := depth_take_closing hclosing
  exact ⟨b, by omega, by omega, hclosing, by omega, fun m hkm hmb => hbefore m hkm (by omega)⟩

/-- Where the depth is above the level of a pair, another pair stands between. -/
theorem exists_encloses_of_depth_lt {k : Nat} (hpair : Encloses lexemes i j) (hik : i < k)
    (hkj : k < j) (hseparator : tokenAt? lexemes k = some (.mark .separator))
    (hdeeper : depth (lexemes.take (i + 1)) < depth (lexemes.take k)) :
    ∃ a b, i < a ∧ b < j ∧ Encloses lexemes a b ∧ a < k ∧ k < b := by
  obtain ⟨-, -, -, -, hlevel⟩ := encloses_iff.mp hpair
  have hbehind : i + 1 ≤ k := hik
  obtain ⟨a, hia, hak, hopening, hvalue, hrisen⟩ :=
    exists_opening_of_depth_lt hbehind le_rfl hdeeper
  obtain ⟨b, hkb, hbj, hclosing, hvalue', hstays⟩ :=
    exists_closing_of_depth_le hkj.le hdeeper hlevel.le
  have hne : k ≠ b := by
    rintro rfl
    cases hseparator.symm.trans hclosing
  have hrises := depth_take_opening hopening
  refine ⟨a, b, hia, hbj, ?_, hak, by omega⟩
  refine encloses_iff.mpr ⟨by omega, hopening, hclosing, fun m ham hmb => ?_, by omega⟩
  rcases le_total m k with hmk | hkm
  · have := hrisen m ham hmk
    omega
  · have := hstays m hkm hmb
    omega

end

/-- The places behind `i` and before `n` of the separators in front of which the depth is `level`. -/
def separatorsAt (lexemes : List Lexeme) (level : Int) (i n : Nat) : Finset Nat :=
  {k ∈ Finset.range n | i < k ∧ tokenAt? lexemes k = some (.mark .separator) ∧
    depth (lexemes.take k) = level}

/-- The separators of a pair are those at its level. -/
theorem ownSeparators_eq {lexemes : List Lexeme} {i j : Nat} (hpair : Encloses lexemes i j) :
    ownSeparators lexemes i j = separatorsAt lexemes (depth (lexemes.take (i + 1))) i j := by
  obtain ⟨-, -, -, habove, -⟩ := encloses_iff.mp hpair
  ext k
  simp only [ownSeparators, separatorsAt, Finset.coe_filter, Finset.mem_range, Set.mem_ofPred_eq]
  constructor
  · rintro ⟨hik, hkj, hseparator, hnone⟩
    refine ⟨hkj, hik, hseparator, ?_⟩
    by_contra hne
    have hdeeper := lt_of_le_of_ne (habove k hik hkj.le) (Ne.symm hne)
    obtain ⟨a, b, hia, hbj, hinner, hinside⟩ :=
      exists_encloses_of_depth_lt hpair hik hkj hseparator hdeeper
    exact hnone a b hia hbj hinner hinside
  · rintro ⟨hkj, hik, hseparator, hlevel⟩
    refine ⟨hik, hkj, hseparator, fun a b hia _ hinner ⟨hak, hkb⟩ => ?_⟩
    obtain ⟨-, hopening, -, hinside, -⟩ := encloses_iff.mp hinner
    have hrises := depth_take_opening hopening
    have houter := habove a hia (by omega)
    have hdeeper := hinside k hak hkb.le
    omega

/-- A group that is open in front of place `n`: its opening marker at place `i`, the depth behind
this, which is its level, and the alternatives it has so far. -/
structure OpenAt (lexemes : List Lexeme) (n : Nat) (level : Int) (group : Nat × Nat) (i : Nat) :
    Prop where
  lt : i < n
  opening : ∃ stop, lexemes[i]? = some ⟨.mark .opening, group.1, stop⟩
  level_eq : depth (lexemes.take (i + 1)) = level
  above : ∀ k, i < k → k ≤ n → level ≤ depth (lexemes.take k)
  count_eq : group.2 = (separatorsAt lexemes level i n).card + 1

/-- Groups that are open in front of place `n`, innermost first, each one level below the one inside
it. -/
def Stacked (lexemes : List Lexeme) (n : Nat) : Int → List (Nat × Nat) → Prop
  | _, [] => True
  | level, group :: outer =>
    (∃ i, OpenAt lexemes n level group i) ∧ Stacked lexemes n (level - 1) outer

section

variable {lexemes : List Lexeme} {n i : Nat} {level : Int} {group : Nat × Nat}
  {outer : List (Nat × Nat)}

/-- What the next place adds to the separators at a level. -/
theorem card_separatorsAt_succ (hlt : i < n) :
    (separatorsAt lexemes level i (n + 1)).card = (separatorsAt lexemes level i n).card +
      if tokenAt? lexemes n = some (.mark .separator) ∧ depth (lexemes.take n) = level then 1
      else 0 := by
  rw [separatorsAt, separatorsAt, Finset.range_add_one, Finset.filter_insert]
  by_cases hhere : tokenAt? lexemes n = some (.mark .separator) ∧ depth (lexemes.take n) = level
  · rw [if_pos ⟨hlt, hhere⟩, if_pos hhere, Finset.card_insert_of_notMem (by simp)]
  · rw [if_neg (fun h => hhere h.2), if_neg hhere, Nat.add_zero]

/-- A group stays open behind a place that does not take the depth below its level. A separator at
its level begins another alternative. -/
theorem OpenAt.next (hopen : OpenAt lexemes n level group i)
    (hlevel : level ≤ depth (lexemes.take (n + 1))) {count : Nat}
    (hcount : count = group.2 +
      if tokenAt? lexemes n = some (.mark .separator) ∧ depth (lexemes.take n) = level then 1
      else 0) :
    OpenAt lexemes (n + 1) level (group.1, count) i where
  lt := Nat.lt_succ_of_lt hopen.lt
  opening := hopen.opening
  level_eq := hopen.level_eq
  above := by
    intro k hik hkn
    rcases Nat.le_succ_iff.mp hkn with hkn | rfl
    · exact hopen.above k hik hkn
    · exact hlevel
  count_eq := by
    rw [card_separatorsAt_succ hopen.lt, hcount, hopen.count_eq]
    omega

/-- Open groups stay as they are behind a place that does not take the depth below their levels and
is no separator of theirs. -/
theorem Stacked.next (hstacked : Stacked lexemes n level outer)
    (hlevel : level ≤ depth (lexemes.take (n + 1)))
    (hquiet : tokenAt? lexemes n = some (.mark .separator) → level < depth (lexemes.take n)) :
    Stacked lexemes (n + 1) level outer := by
  induction outer generalizing level with
  | nil => trivial
  | cons group outer ih =>
    obtain ⟨⟨i, hopen⟩, hrest⟩ := hstacked
    refine ⟨⟨i, hopen.next hlevel ?_⟩, ih hrest (by omega) fun hseparator => ?_⟩
    · rw [if_neg, Nat.add_zero]
      rintro ⟨hseparator, hhere⟩
      have := hquiet hseparator
      omega
    · have := hquiet hseparator
      omega

/-- An opening marker opens a group, with one alternative. -/
theorem Stacked.opening {start stop : Nat}
    (hstacked : Stacked lexemes n (depth (lexemes.take n)) outer)
    (hlexeme : lexemes[n]? = some ⟨.mark .opening, start, stop⟩) :
    Stacked lexemes (n + 1) (depth (lexemes.take (n + 1))) ((start, 1) :: outer) := by
  have htoken := tokenAt?_of_getElem? hlexeme
  have hrises := depth_take_opening htoken
  refine ⟨⟨n, Nat.lt_succ_self n, ⟨stop, hlexeme⟩, rfl, fun k hnk hkn => ?_, ?_⟩, ?_⟩
  · obtain rfl : k = n + 1 := by omega
    exact le_rfl
  · have hnone : separatorsAt lexemes (depth (lexemes.take (n + 1))) n (n + 1) = ∅ := by
      rw [separatorsAt, Finset.filter_eq_empty_iff]
      rintro k hk ⟨hnk, -⟩
      rw [Finset.mem_range] at hk
      omega
    rw [hnone, Finset.card_empty]
  · rw [hrises, Int.add_sub_cancel]
    refine hstacked.next (by omega) fun hseparator => ?_
    cases hseparator.symm.trans htoken

/-- A separator gives the innermost group another alternative. -/
theorem Stacked.separator {began count start stop : Nat}
    (hstacked : Stacked lexemes n (depth (lexemes.take n)) ((began, count) :: outer))
    (hlexeme : lexemes[n]? = some ⟨.mark .separator, start, stop⟩) :
    Stacked lexemes (n + 1) (depth (lexemes.take (n + 1))) ((began, count + 1) :: outer) := by
  have htoken := tokenAt?_of_getElem? hlexeme
  have hsame : depth (lexemes.take (n + 1)) = depth (lexemes.take n) := by
    rw [depth_take_of_tokenAt? htoken, Token.weight, Int.add_zero]
    all_goals simp
  obtain ⟨⟨i, hopen⟩, hrest⟩ := hstacked
  rw [hsame]
  refine ⟨⟨i, hopen.next hsame.ge ?_⟩, hrest.next (by omega) fun _ => by omega⟩
  rw [if_pos ⟨htoken, rfl⟩]

/-- A run of text changes nothing, and neither does a separator outside every group. -/
theorem Stacked.unchanged (hstacked : Stacked lexemes n (depth (lexemes.take n)) outer)
    (hsame : depth (lexemes.take (n + 1)) = depth (lexemes.take n))
    (hquiet : tokenAt? lexemes n = some (.mark .separator) → outer = []) :
    Stacked lexemes (n + 1) (depth (lexemes.take (n + 1))) outer := by
  rw [hsame]
  cases outer with
  | nil => trivial
  | cons group outer =>
    refine Stacked.next hstacked hsame.ge fun hseparator => ?_
    cases hquiet hseparator

/-- A closing marker completes the pair of the innermost group, and the others stay open. -/
theorem Stacked.closing {began count start stop : Nat}
    (hstacked : Stacked lexemes n (depth (lexemes.take n)) ((began, count) :: outer))
    (hlexeme : lexemes[n]? = some ⟨.mark .closing, start, stop⟩) :
    Describes lexemes ⟨began, start, count⟩ ∧
      Stacked lexemes (n + 1) (depth (lexemes.take (n + 1))) outer := by
  have htoken := tokenAt?_of_getElem? hlexeme
  have hfalls := depth_take_closing htoken
  obtain ⟨⟨i, hopen⟩, hrest⟩ := hstacked
  constructor
  · obtain ⟨stop', hopening⟩ := hopen.opening
    have hpair : Encloses lexemes i n := encloses_iff.mpr
      ⟨hopen.lt, tokenAt?_of_getElem? hopening, htoken, hopen.level_eq ▸ hopen.above,
        hopen.level_eq.symm⟩
    refine ⟨i, n, stop', stop, hopening, hlexeme, fun k => ⟨fun hother => ?_, ?_⟩, ?_⟩
    · exact hother.opening_unique hpair
    · rintro rfl
      exact hpair
    · rw [ownSeparators_eq hpair, Set.ncard_coe_finset, hopen.level_eq]
      exact hopen.count_eq
  · rw [hfalls]
    refine hrest.next (by omega) fun hseparator => ?_
    cases hseparator.symm.trans htoken

end

/-- The calls that are made from a place on are for pairs. -/
theorem describes_of_mem_callsFrom {lexemes rest : List Lexeme} {n : Nat}
    {pending : List (Nat × Nat)} (hrest : lexemes.drop n = rest)
    (hstacked : Stacked lexemes n (depth (lexemes.take n)) pending) :
    ∀ call ∈ callsFrom pending rest, Describes lexemes call := by
  induction rest generalizing n pending with
  | nil => simp [callsFrom]
  | cons lexeme rest ih =>
    have hlexeme : lexemes[n]? = some lexeme := by
      rw [← List.head?_drop, hrest, List.head?_cons]
    have hnext : lexemes.drop (n + 1) = rest := by
      rw [← List.tail_drop, hrest, List.tail_cons]
    have hweight := depth_take_succ hlexeme
    obtain ⟨chunk | mark, start, stop⟩ := lexeme
    · refine ih hnext (hstacked.unchanged (by simpa [Token.weight] using hweight) fun hseparator => ?_)
      cases hseparator.symm.trans (tokenAt?_of_getElem? hlexeme)
    · cases mark with
      | opening => exact ih hnext (hstacked.opening hlexeme)
      | separator =>
        obtain _ | ⟨⟨began, count⟩, outer⟩ := pending
        · exact ih hnext trivial
        · exact ih hnext (hstacked.separator hlexeme)
      | closing =>
        obtain _ | ⟨⟨began, count⟩, outer⟩ := pending
        · simp [callsFrom]
        · obtain ⟨hdescribes, hothers⟩ := hstacked.closing hlexeme
          exact List.forall_mem_cons.mpr ⟨hdescribes, ih hnext hothers⟩

namespace Markers

variable {markers : Markers} {text : String}

/-- The calls of a text are for pairs of its tokens. -/
theorem describes_of_mem_calls {call : Call} (hmem : call ∈ markers.calls text) :
    Describes (markers.lexemes text) call :=
  describes_of_mem_callsFrom List.drop_zero (show Stacked _ 0 _ [] from trivial) call hmem

/-- Of two lexemes of a text, the one further on begins further right. -/
theorem start_lt_start_iff {i j : Nat} {first second : Lexeme}
    (hfirst : (markers.lexemes text)[i]? = some first)
    (hsecond : (markers.lexemes text)[j]? = some second) : first.start < second.start ↔ i < j := by
  have hsorted := List.pairwise_iff_getElem.mp (markers.pairwise_start_lexemes text)
  obtain ⟨hi, rfl⟩ := List.getElem?_eq_some_iff.mp hfirst
  obtain ⟨hj, rfl⟩ := List.getElem?_eq_some_iff.mp hsecond
  rcases lt_trichotomy i j with hlt | rfl | hlt
  · exact iff_of_true (hsorted i j hi hj hlt) hlt
  · exact iff_of_false (lt_irrefl _) (lt_irrefl _)
  · exact iff_of_false (hsorted j i hj hi hlt).not_gt hlt.not_gt

variable (markers text)

/-- The calls of a text are for closing markers further and further right. -/
theorem pairwise_stop_calls : (markers.calls text).Pairwise fun first second =>
    first.stop < second.stop := by
  obtain ⟨left, heq, -⟩ := closingStarts_eq_append [] (markers.lexemes text)
  have hsorted : (markers.closingStarts text).Pairwise (· < ·) :=
    List.pairwise_map.mpr ((markers.pairwise_start_lexemes text).filter _)
  rw [closingStarts, heq, List.pairwise_append] at hsorted
  exact List.pairwise_map.mp hsorted.1

/-- The stretches of the calls of a text lie apart or inside one another. -/
theorem pairwise_calls : (markers.calls text).Pairwise fun first second =>
    first.stop < second.start ∨ second.start < first.start ∧ first.stop < second.stop := by
  refine (markers.pairwise_stop_calls text).imp_of_mem fun hfirst hsecond hlt => ?_
  obtain ⟨i, j, _, _, hopening, hclosing, hpair, -⟩ := describes_of_mem_calls hfirst
  obtain ⟨i', j', _, _, hopening', hclosing', hpair', -⟩ := describes_of_mem_calls hsecond
  have hcases := ((hpair i).mpr rfl).before_or_inside ((hpair' i').mpr rfl)
    ((start_lt_start_iff hclosing hclosing').mp hlt)
  rcases hcases with happart | hinside
  · exact .inl ((start_lt_start_iff hclosing hopening').mpr happart)
  · exact .inr ⟨(start_lt_start_iff hopening' hopening).mpr hinside, hlt⟩

variable {markers text}

/-- An opening marker stands in front of the closing marker of its call. -/
theorem start_lt_stop {call : Call} (hmem : call ∈ markers.calls text) : call.start < call.stop := by
  obtain ⟨i, j, _, _, hopening, hclosing, hpair, -⟩ := describes_of_mem_calls hmem
  exact (start_lt_start_iff hopening hclosing).mpr ((hpair i).mpr rfl).lt

variable (markers text)

/-- The opening markers of the calls of a text are distinct. -/
theorem nodup_start_calls : ((markers.calls text).map Call.start).Nodup := by
  refine List.pairwise_map.mpr
    ((markers.pairwise_calls text).imp_of_mem fun hfirst _ hcases heq => ?_)
  have hlt := start_lt_stop hfirst
  omega

/-- The calls are for closing markers from the first one on. -/
theorem map_stop_calls_prefix (markers : Markers) (text : String) :
    (markers.calls text).map Call.stop <+: markers.closingStarts text := by
  obtain ⟨left, heq, -⟩ := closingStarts_eq_append [] (markers.lexemes text)
  exact ⟨left, heq.symm⟩

/-- The calls are for the closing markers before the one that is the fault of the outcome, if one is, and
else for all of them. -/
theorem map_stop_calls_of_outcome (markers : Markers) (text : String) (indices : List Nat) :
    (markers.calls text).map Call.stop =
      match markers.outcome text indices with
      | .error ⟨.closing, position⟩ => (markers.closingStarts text).filter (· < position)
      | _ => markers.closingStarts text := by
  rw [map_stop_calls, markers.checkPairing_eq_outcome text indices]
  rcases markers.outcome text indices with ⟨_ | _, position⟩ | output <;> rfl

/-- The group events of a text tell of the pairs of its group markers, in the order of the closing ones.

The number of alternatives is one more than the separators of the pair's own, and pairs are nested or apart.
A run stalls only at a call that is not answered, with the events of the calls before. -/
theorem resolve_reports_pairs (tape : Tape) :
    ((∃ stuck, markers.resolve text tape = .error .stalled stuck) ↔
      tape.source.chooseAll? ((markers.calls text).map Call.count) = none) ∧
    (tape.source.Answering → (markers.resolve text).Answered tape) ∧
    ∃ groups : List (Call × Nat),
      Logged tape (reports groups) ((markers.resolve text).tapeAfter tape) ∧
      (match markers.resolve text tape with
        | .ok _ _ => groups.map (·.1.stop) = markers.closingStarts text
        | .error (.malformed ⟨.opening, _⟩) _ => groups.map (·.1.stop) = markers.closingStarts text
        | .error (.malformed ⟨.closing, position⟩) _ =>
          groups.map (·.1.stop) = (markers.closingStarts text).filter (· < position)
        | .error .stalled _ => groups.map (·.1.stop) <+: markers.closingStarts text
        | .error (.refused _) _ => False) ∧
      (∀ group ∈ groups, Describes (markers.lexemes text) group.1 ∧ group.2 < group.1.count) ∧
      (groups.map (·.1.start)).Nodup ∧
      groups.Pairwise fun first second => first.1.stop < second.1.start ∨
        second.1.start < first.1.start ∧ first.1.stop < second.1.stop := by
  refine ⟨resolve_stalls_iff, (markers.proceeds_resolve text).answered tape, ?_⟩
  obtain ⟨groups, last, hlogged, hends⟩ := markers.resolve_log text tape
  have hcalls : groups.map Prod.fst <+: markers.calls text := by
    rcases hends with ⟨-, hcalls⟩ | ⟨-, hcalls⟩
    · exact hcalls ▸ List.prefix_rfl
    · exact hcalls
  have hmem : ∀ group ∈ groups, group.1 ∈ markers.calls text := fun group hgroup =>
    hcalls.subset (List.mem_map_of_mem hgroup)
  have hlast : (markers.resolve text).tapeAfter tape = last := by
    rcases hends with ⟨hrun, -⟩ | ⟨hrun, -⟩
    · rw [Sampling.tapeAfter, hrun]
      exact Sampling.tapeAfter_settle _ last
    · exact Sampling.tapeAfter_of_error hrun
  refine ⟨groups, hlast ▸ hlogged, ?_, fun group hgroup => ⟨?_, ?_⟩, ?_, ?_⟩
  · rcases hends with ⟨hrun, hall⟩ | ⟨hrun, -⟩
    · have hstops := markers.map_stop_calls_of_outcome text (groups.map Prod.snd)
      rw [← hall, List.map_map] at hstops
      rw [hrun]
      rcases houtcome : markers.outcome text (groups.map Prod.snd) with ⟨_ | _, position⟩ | output <;>
        rw [houtcome] at hstops <;> exact hstops
    · rw [hrun]
      have hstops := (hcalls.map Call.stop).trans (markers.map_stop_calls_prefix text)
      rwa [List.map_map] at hstops
  · exact describes_of_mem_calls (hmem group hgroup)
  · exact hlogged.chosen_lt (fun group hgroup =>
      count_pos_of_mem_callsFrom (by simp) _ (hmem group hgroup)) group hgroup
  · have hnodup := (hcalls.sublist.map Call.start).nodup (markers.nodup_start_calls text)
    rwa [List.map_map] at hnodup
  · exact List.pairwise_map.mp ((markers.pairwise_calls text).sublist hcalls.sublist)

/-- A group inside another, and behind them a closing marker that pairs with nothing and ends the
run. Both groups are reported, the inner one first, with its last alternative but one. -/
theorem resolve_reports_pairs_nested :
    let text := "\x7ba|\x7bb|c|d\x7d\x7d|\x7d"
    let tape : Tape := { source := .ofList [.ofNat (1 <<< 63), .ofNat (1 <<< 63)] }
    (Markers.default.resolve text).Answered tape ∧
      ∃ groups last,
        Markers.default.resolve text tape = .error (.malformed ⟨.closing, 12⟩) last ∧
        last.events = [.resolvedGroup 0 2 1, .resolvedGroup 3 3 1] ∧
        Logged tape (reports groups) last ∧ groups.map (·.1.stop) = [9, 10] := by
  intro text tape
  obtain ⟨-, hanswered, groups, hlogged, hstops, -⟩ :=
    Markers.default.resolve_reports_pairs text tape
  have hrun : ∃ last, Markers.default.resolve text tape =
      .error (.malformed ⟨.closing, 12⟩) last ∧
        last.events = [.resolvedGroup 0 2 1, .resolvedGroup 3 3 1] := by decide +kernel
  obtain ⟨last, hrun, hevents⟩ := hrun
  have hclosing : Markers.default.closingStarts text = [9, 10, 12] := by decide +kernel
  rw [Sampling.tapeAfter_of_error hrun] at hlogged
  rw [hrun, hclosing] at hstops
  exact ⟨hanswered (Source.answering_ofList (by decide)), groups, last, hrun, hevents, hlogged,
    hstops⟩

end Markers

end Spintax
