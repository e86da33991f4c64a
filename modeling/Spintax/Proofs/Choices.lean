import Mathlib.Data.List.Forall2
import Mathlib.Data.Nat.Find
import Spintax.Sampling

/-!
# Rows of choices

A call asks for one index among the alternatives of a group. Here rows of calls are made one after
another, first on a source alone and then on a tape that also records each call with its answer. A
row of calls that are all answered leaves the source behind the last accepted draw and the record
with one event a call; otherwise the computation stalls.

Between the draws that a row uses there are others, which it rejects. What becomes of the draws to
come is a relation between lists, so nothing else has to follow the search for an accepted draw.

A source that answers every call for a range that is not empty, wherever it comes to, answers every
row of such calls. One whose draws are zeros from some place on does so, as zero is accepted for every
number of alternatives. Each index below a 64-bit number of alternatives is the answer to some draw
that is accepted, so any row of answers is given by some stream.
-/

namespace Spintax

namespace Source

/-- Choose among each of the listed numbers of alternatives, in turn. -/
def chooseAll? : List Nat → Source → Option (List Nat × Source)
  | [], source => some ([], source)
  | count :: rest, source => do
    let (index, next) ← source.choose? count
    let (indices, last) ← chooseAll? rest next
    some (index :: indices, last)

/-- A row is answered when its first call is, and the others are from the source this leaves. -/
theorem chooseAll?_cons {count : Nat} {rest indices : List Nat} {source after : Source} :
    source.chooseAll? (count :: rest) = some (indices, after) ↔
      ∃ index next others, source.choose? count = some (index, next) ∧
        next.chooseAll? rest = some (others, after) ∧ indices = index :: others := by
  simp only [chooseAll?, Option.bind_eq_bind, Option.bind_eq_some_iff, Option.some.injEq,
    Prod.mk.injEq, Prod.exists]
  constructor
  · rintro ⟨index, next, hfirst, others, last, hrest, rfl, rfl⟩
    exact ⟨index, next, others, hfirst, hrest, rfl⟩
  · rintro ⟨index, next, others, hfirst, hrest, rfl⟩
    exact ⟨index, next, hfirst, others, after, hrest, rfl, rfl⟩

/-- A row is answered when its first part is, and the second is from the source this leaves. -/
theorem chooseAll?_append {counts others indices answers : List Nat} {source next after : Source}
    (hfirst : source.chooseAll? counts = some (indices, next))
    (hsecond : next.chooseAll? others = some (answers, after)) :
    source.chooseAll? (counts ++ others) = some (indices ++ answers, after) := by
  induction counts generalizing source indices with
  | nil =>
    cases hfirst
    exact hsecond
  | cons count rest ih =>
    obtain ⟨index, following, behind, hhere, hrest, rfl⟩ := chooseAll?_cons.mp hfirst
    exact chooseAll?_cons.mpr ⟨index, following, behind ++ answers, hhere, ih hrest, rfl⟩

/-- The answers to a row of calls lie below the numbers of alternatives asked for. -/
theorem forall₂_lt_of_chooseAll? {counts indices : List Nat} {source after : Source}
    (hpos : ∀ count ∈ counts, 0 < count)
    (hchosen : source.chooseAll? counts = some (indices, after)) :
    List.Forall₂ (· < ·) indices counts := by
  induction counts generalizing source indices with
  | nil =>
    simp only [chooseAll?, Option.some.injEq, Prod.mk.injEq] at hchosen
    rw [← hchosen.1]
    exact .nil
  | cons count rest ih =>
    rw [List.forall_mem_cons] at hpos
    obtain ⟨index, next, others, hfirst, hrest, rfl⟩ := chooseAll?_cons.mp hchosen
    exact .cons (lt_of_choose? hpos.1 hfirst) (ih hpos.2 hrest)

/-- The source behind the next draws. -/
def skip (source : Source) (length : Nat) : Source :=
  { source with position := source.position + length }

/-- The next draws of a source. -/
def upcoming (source : Source) (length : Nat) : List UInt64 :=
  (List.range' source.position length).map source.draw

/-- As many draws are upcoming as are asked for. -/
@[simp] theorem length_upcoming (source : Source) (length : Nat) :
    (source.upcoming length).length = length := by
  rw [upcoming, List.length_map, List.length_range']

/-- The upcoming draws are those at the next positions. -/
theorem mem_upcoming_iff {source : Source} {length : Nat} {draw : UInt64} :
    draw ∈ source.upcoming length ↔ ∃ k < length, source.draw (source.position + k) = draw := by
  simp only [upcoming, List.mem_map, List.mem_range', Nat.one_mul]
  constructor
  · rintro ⟨_, ⟨k, hk, rfl⟩, rfl⟩
    exact ⟨k, hk, rfl⟩
  · rintro ⟨k, hk, rfl⟩
    exact ⟨_, ⟨k, hk, rfl⟩, rfl⟩

/-- The next draws are some of them and those behind these. -/
theorem upcoming_add (source : Source) (first second : Nat) :
    source.upcoming (first + second) =
      source.upcoming first ++ (source.skip first).upcoming second := by
  rw [upcoming, ← List.range'_append, List.map_append, Nat.one_mul]
  rfl

/-- The next draws are those listed if they are so in front of one of them, at it and behind it. -/
theorem upcoming_eq_append_cons_iff {source : Source} {front behind : List UInt64} {draw : UInt64} :
    source.upcoming (front ++ draw :: behind).length = front ++ draw :: behind ↔
      source.upcoming front.length = front ∧
        source.draw (source.position + front.length) = draw ∧
        (source.skip (front.length + 1)).upcoming behind.length = behind := by
  have hlength : (front ++ draw :: behind).length = front.length + (1 + behind.length) := by
    simp only [List.length_append, List.length_cons]
    omega
  have hcut : source.upcoming (front ++ draw :: behind).length =
      source.upcoming front.length ++ source.draw (source.position + front.length) ::
        (source.skip (front.length + 1)).upcoming behind.length := by
    rw [hlength, upcoming_add, upcoming_add]
    rfl
  rw [hcut]
  constructor
  · intro heq
    obtain ⟨hfront, hbehind⟩ := List.append_inj heq (source.length_upcoming _)
    exact ⟨hfront, List.cons.inj hbehind⟩
  · rintro ⟨hfront, hdraw, hbehind⟩
    rw [hfront, hdraw, hbehind]

/-- The search finds the first draw that is accepted, if it is among those that are tried. -/
theorem accepted?_eq_some_iff {source : Source} {count tries position found : Nat} :
    source.accepted? count tries position = some found ↔
      ∃ k < tries, position + k = found ∧ accepts count (source.draw (position + k)) = true ∧
        ∀ j < k, accepts count (source.draw (position + j)) = false := by
  induction tries generalizing position with
  | zero => simp [accepted?]
  | succ tries ih =>
    rw [accepted?]
    have hshift (k : Nat) : position + 1 + k = position + (k + 1) := by omega
    cases haccepts : accepts count (source.draw position) with
    | true =>
      simp only [if_true, Option.some.injEq]
      constructor
      · rintro rfl
        exact ⟨0, Nat.succ_pos _, rfl, haccepts, by simp⟩
      · rintro ⟨_ | k, -, rfl, -, hrejected⟩
        · rfl
        · cases haccepts.symm.trans (hrejected 0 (Nat.succ_pos k))
    | false =>
      simp only [Bool.false_eq_true, if_false, ih, hshift]
      constructor
      · rintro ⟨k, hk, hfound, haccepted, hrejected⟩
        refine ⟨k + 1, Nat.succ_lt_succ hk, hfound, haccepted, fun j hj => ?_⟩
        cases j with
        | zero => exact haccepts
        | succ j => exact hrejected j (Nat.lt_of_succ_lt_succ hj)
      · rintro ⟨_ | k, hk, hfound, haccepted, hrejected⟩
        · cases haccepts.symm.trans haccepted
        · exact ⟨k, Nat.lt_of_succ_lt_succ hk, hfound, haccepted,
            fun j hj => hrejected (j + 1) (Nat.succ_lt_succ hj)⟩

/-- A choice passes over rejected draws, fewer than it may take, and uses the next one. -/
theorem choose?_eq_some_iff {source after : Source} {count index : Nat} :
    source.choose? count = some (index, after) ↔
      ∃ k < source.patience, (∀ draw ∈ source.upcoming k, accepts count draw = false) ∧
        accepts count (source.draw (source.position + k)) = true ∧
        Source.index count (source.draw (source.position + k)) = index ∧
        source.skip (k + 1) = after := by
  have hrejected (k : Nat) : (∀ draw ∈ source.upcoming k, accepts count draw = false) ↔
      ∀ j < k, accepts count (source.draw (source.position + j)) = false := by
    simp only [mem_upcoming_iff]
    exact ⟨fun h j hj => h _ ⟨j, hj, rfl⟩, by rintro h _ ⟨j, hj, rfl⟩; exact h j hj⟩
  simp only [choose?, Option.map_eq_some_iff, accepted?_eq_some_iff, hrejected, Prod.mk.injEq]
  constructor
  · rintro ⟨_, ⟨k, hk, rfl, haccepted, hfront⟩, hindex, hafter⟩
    exact ⟨k, hk, hfront, haccepted, hindex, hafter⟩
  · rintro ⟨k, hk, hfront, haccepted, hindex, hafter⟩
    exact ⟨_, ⟨k, hk, rfl, haccepted, hfront⟩, hindex, hafter⟩

/-- Passing over some draws and then over others is passing over them all. -/
theorem skip_skip (source : Source) (first second : Nat) :
    (source.skip first).skip second = source.skip (first + second) := by
  simp only [skip, Nat.add_assoc]

/-- Wherever the source comes to, it answers a call for a range that is not empty. -/
def Answering (source : Source) : Prop :=
  ∀ draws count, 0 < count → ∃ index after, (source.skip draws).choose? count = some (index, after)

/-- A source that answers goes on answering further on. -/
theorem Answering.skip {source : Source} (hanswering : source.Answering) (length : Nat) :
    (source.skip length).Answering := by
  intro draws count hpos
  rw [skip_skip]
  exact hanswering (length + draws) count hpos

/-- A source that answers does so for every row of calls, none of them for an empty range. -/
theorem Answering.exists_chooseAll? {source : Source} (hanswering : source.Answering)
    {counts : List Nat} (hpos : ∀ count ∈ counts, 0 < count) :
    ∃ indices after, source.chooseAll? counts = some (indices, after) := by
  induction counts generalizing source with
  | nil => exact ⟨[], source, rfl⟩
  | cons count counts ih =>
    rw [List.forall_mem_cons] at hpos
    obtain ⟨index, next, hfirst⟩ := hanswering 0 count hpos.1
    obtain ⟨k, -, -, -, -, rfl⟩ := choose?_eq_some_iff.mp hfirst
    obtain ⟨others, after, hrest⟩ := ih (hanswering.skip (k + 1)) hpos.2
    exact ⟨_, _, chooseAll?_cons.mpr ⟨index, _, others, hfirst, hrest, rfl⟩⟩

/-- A choice is answered when the draws are zeros from some place on that its patience reaches. -/
theorem exists_choose?_of_zeros (count : Nat) {source : Source} {first : Nat}
    (hzeros : ∀ later, first ≤ later → source.draw later = 0)
    (hpatient : first - source.position < source.patience) :
    ∃ index after, source.choose? count = some (index, after) := by
  have hzero : accepts count (source.draw (source.position + (first - source.position))) = true := by
    rw [hzeros _ (by omega)]
    exact accepts_zero count
  have hexists : ∃ k, accepts count (source.draw (source.position + k)) = true := ⟨_, hzero⟩
  have hfew : Nat.find hexists < source.patience :=
    Nat.lt_of_le_of_lt (Nat.find_min' hexists hzero) hpatient
  refine ⟨_, _, choose?_eq_some_iff.mpr ⟨Nat.find hexists, hfew, fun draw hmem => ?_,
    Nat.find_spec hexists, rfl, rfl⟩⟩
  obtain ⟨k, hk, rfl⟩ := mem_upcoming_iff.mp hmem
  exact Bool.eq_false_iff.mpr (Nat.find_min hexists hk)

/-- A source whose draws are zeros from some place on, which its patience reaches, answers. -/
theorem answering_of_zeros {source : Source} {first : Nat}
    (hzeros : ∀ later, first ≤ later → source.draw later = 0)
    (hpatient : first - source.position < source.patience) : source.Answering := by
  intro draws count _
  have hzeros' : ∀ later, first ≤ later → (source.skip draws).draw later = 0 := hzeros
  exact exists_choose?_of_zeros count hzeros'
    (Nat.lt_of_le_of_lt (Nat.sub_le_sub_left (Nat.le_add_right _ _) _) hpatient)

/-- Listed draws make a source that answers, unless they are more than one choice waits for. -/
theorem answering_ofList {draws : List UInt64} (hfew : draws.length < UInt64.size) :
    (ofList draws).Answering := by
  have hzeros : ∀ later, draws.length ≤ later → (ofList draws).draw later = 0 := by
    intro later hlater
    change draws.getD later (UInt64.ofNat 0) = 0
    rw [List.getD_eq_getElem?_getD, List.getElem?_eq_none hlater]
    rfl
  exact answering_of_zeros hzeros hfew

/-- What a row of calls makes of the draws that come. For each call some are rejected, fewer than
`patience`, and the next one is accepted and used. -/
inductive Sifted (patience : Nat) : List Nat → List UInt64 → List UInt64 → Prop
  | nil : Sifted patience [] [] []
  | cons {count : Nat} {counts : List Nat} {rejected made used : List UInt64} {draw : UInt64}
      (hfew : rejected.length < patience)
      (hrejected : ∀ draw ∈ rejected, accepts count draw = false)
      (haccepted : accepts count draw = true) (hrest : Sifted patience counts made used) :
      Sifted patience (count :: counts) (rejected ++ draw :: made) (draw :: used)

/-- Accepted draws are all used, if a choice may take a draw at all. -/
theorem Sifted.of_accepted {patience : Nat} (hpatient : 0 < patience) {counts : List Nat}
    {draws : List UInt64}
    (hdraws : List.Forall₂ (fun count draw => accepts count draw = true) counts draws) :
    Sifted patience counts draws draws := by
  induction hdraws with
  | nil => exact .nil
  | @cons count _ _ _ haccepted _ ih =>
    have hnone : ∀ draw ∈ ([] : List UInt64), accepts count draw = false := by simp
    exact .cons hpatient hnone haccepted ih

/-- A row of calls is answered when the draws to come are used up by it, and the answers are what
the draws stand for that it uses. -/
theorem chooseAll?_eq_some_iff {counts indices : List Nat} {source after : Source} :
    source.chooseAll? counts = some (indices, after) ↔
      ∃ made used, Sifted source.patience counts made used ∧ source.upcoming made.length = made ∧
        List.zipWith index counts used = indices ∧ source.skip made.length = after := by
  induction counts generalizing source indices with
  | nil =>
    constructor
    · intro hchosen
      cases hchosen
      exact ⟨[], [], .nil, rfl, rfl, rfl⟩
    · rintro ⟨_, _, hsifted, -, rfl, rfl⟩
      cases hsifted
      rfl
  | cons count counts ih =>
    have hskip (front behind : List UInt64) (draw : UInt64) :
        source.skip (front ++ draw :: behind).length =
          (source.skip (front.length + 1)).skip behind.length := by
      have hposition : source.position + (front.length + (behind.length + 1)) =
          source.position + (front.length + 1) + behind.length := by omega
      simp only [skip, List.length_append, List.length_cons, hposition]
    rw [chooseAll?_cons]
    constructor
    · rintro ⟨index, next, others, hfirst, hrest, rfl⟩
      obtain ⟨k, hfew, hrejected, haccepted, rfl, rfl⟩ := choose?_eq_some_iff.mp hfirst
      obtain ⟨made, used, hsifted, hmade, rfl, rfl⟩ := ih.mp hrest
      have hlength := source.length_upcoming k
      refine ⟨source.upcoming k ++ source.draw (source.position + k) :: made, _ :: used,
        .cons (hlength.symm ▸ hfew) hrejected haccepted hsifted, ?_, rfl, ?_⟩
      · rw [upcoming_eq_append_cons_iff, hlength]
        exact ⟨rfl, rfl, hmade⟩
      · rw [hskip, hlength]
    · rintro ⟨_, _, hsifted, hmade, rfl, rfl⟩
      cases hsifted with
      | @cons _ _ rejected made used draw hfew hrejected haccepted hrest =>
        obtain ⟨hfront, rfl, hbehind⟩ := upcoming_eq_append_cons_iff.mp hmade
        rw [← hfront] at hrejected
        exact ⟨_, source.skip (rejected.length + 1), _,
          choose?_eq_some_iff.mpr ⟨_, hfew, hrejected, haccepted, rfl, rfl⟩,
          ih.mpr ⟨made, used, hrest, hbehind, rfl, (hskip _ _ _).symm⟩, rfl⟩

/-- The least draw that stands for `index` among `count` alternatives. -/
def leastDraw (count index : Nat) : Nat :=
  (index * UInt64.size + (count - 1)) / count

/-- Multiplied by the count, the least draw for an index exceeds the lower end of the index's share by less
than the count. -/
theorem leastDraw_mul {count : Nat} (hpos : 0 < count) (index : Nat) :
    ∃ excess < count, leastDraw count index * count = index * UInt64.size + excess := by
  have hdiv := Nat.div_add_mod (index * UInt64.size + (count - 1)) count
  have hmod := Nat.mod_lt (index * UInt64.size + (count - 1)) hpos
  refine ⟨count - 1 - (index * UInt64.size + (count - 1)) % count, by omega, ?_⟩
  rw [leastDraw, Nat.mul_comm]
  omega

/-- The least draw for an index is a word. -/
theorem leastDraw_lt {count index : Nat} (hindex : index < count) (hcount : count < UInt64.size) :
    leastDraw count index < UInt64.size := by
  rw [leastDraw, Nat.div_lt_iff_lt_mul (by omega)]
  have : (index + 1) * UInt64.size ≤ count * UInt64.size := Nat.mul_le_mul_right _ hindex
  rw [Nat.succ_mul] at this
  rw [Nat.mul_comm UInt64.size]
  omega

/-- The zone reaches beyond every low half that is smaller than the number of alternatives. -/
theorem lt_of_lt_count {count excess : Nat} (hexcess : excess < count) : excess ≤ zone count := by
  have : count ≤ count * 2 ^ (63 - Nat.log2 count) := Nat.le_mul_of_pos_right _ (Nat.two_pow_pos _)
  rw [zone, Nat.shiftLeft_eq]
  omega

/-- Each index below a 64-bit number of alternatives is the answer to an accepted draw. -/
theorem exists_draw {count index : Nat} (hindex : index < count) (hcount : count < UInt64.size) :
    ∃ draw : UInt64, accepts count draw = true ∧ Source.index count draw = index := by
  obtain ⟨excess, hexcess, hmul⟩ := leastDraw_mul (Nat.zero_lt_of_lt hindex) index
  have hsmall : excess < UInt64.size := Nat.lt_trans hexcess hcount
  refine ⟨UInt64.ofNat (leastDraw count index), ?_, ?_⟩
  · rw [accepts, UInt64.toNat_ofNat_of_lt' (leastDraw_lt hindex hcount), hmul, decide_eq_true_eq,
      Nat.mul_add_mod_self_right, Nat.mod_eq_of_lt hsmall]
    exact lt_of_lt_count hexcess
  · rw [Source.index, UInt64.toNat_ofNat_of_lt' (leastDraw_lt hindex hcount), hmul,
      Nat.add_comm, Nat.add_mul_div_right _ _ (by decide), Nat.div_eq_of_lt hsmall, Nat.zero_add]

/-- A listed draw that is accepted for each call in turn gives the answers. -/
theorem chooseAll?_ofList {counts : List Nat} {draws : List UInt64}
    (hdraws : List.Forall₂ (fun count draw => accepts count draw = true) counts draws) :
    (ofList draws).chooseAll? counts = some (List.zipWith index counts draws,
      { ofList draws with position := counts.length }) := by
  have hpatient : 0 < (ofList draws).patience := show 0 < UInt64.size by decide
  have hupcoming : (ofList draws).upcoming draws.length = draws :=
    List.ext_getElem (length_upcoming _ _) fun k _ hk => by simp [upcoming, ofList, hk]
  refine chooseAll?_eq_some_iff.mpr ⟨draws, draws, .of_accepted hpatient hdraws, hupcoming, rfl, ?_⟩
  rw [skip, hdraws.length_eq]
  exact congrArg (fun position => { ofList draws with position := position }) (Nat.zero_add _)

/-- Every row of indices below 64-bit numbers of alternatives is the row of answers of a stream. -/
theorem exists_stream {counts indices : List Nat}
    (hindices : List.Forall₂ (· < ·) indices counts)
    (hcounts : ∀ count ∈ counts, count < UInt64.size) :
    ∃ (draw : Nat → UInt64) (after : Source),
      ({ draw := draw } : Source).chooseAll? counts = some (indices, after) := by
  have hdraws : ∃ draws : List UInt64,
      List.Forall₂ (fun count draw => accepts count draw = true) counts draws ∧
        indices = List.zipWith index counts draws := by
    induction hindices with
    | nil => exact ⟨[], .nil, rfl⟩
    | @cons index count indices counts hlt hrest ih =>
      rw [List.forall_mem_cons] at hcounts
      obtain ⟨draw, haccepts, hindex⟩ := exists_draw hlt hcounts.1
      obtain ⟨draws, hdraws, heq⟩ := ih hcounts.2
      exact ⟨draw :: draws, .cons haccepts hdraws, by rw [List.zipWith_cons_cons, hindex, ← heq]⟩
  obtain ⟨draws, haccepts, heq⟩ := hdraws
  exact ⟨(ofList draws).draw, _, heq ▸ chooseAll?_ofList haccepts⟩

end Source

/-- A call for one of `count` alternatives, for the group that its opening marker at byte `start`
and its closing marker at byte `stop` delimit. -/
structure Call where
  start : Nat
  stop : Nat
  count : Nat
deriving DecidableEq, Repr

/-- The event that records a call with its answer. -/
def Call.report (call : Call) (index : Nat) : Event :=
  .resolvedGroup call.start call.count index

namespace Sampling

/-- Make a call and record it. -/
def make (call : Call) : Sampling Nat := do
  let index ← choose call.count
  report (call.report index)
  pure index

/-- Make and record a row of calls. -/
def makeAll (calls : List Call) : Sampling (List Nat) :=
  calls.mapM make

/-- Choose among each of the listed numbers of alternatives, without a record. -/
def chooseAll (counts : List Nat) : Sampling (List Nat) :=
  counts.mapM choose

/-- Making calls is making the first and then the others. -/
theorem makeAll_cons (call : Call) (rest : List Call) :
    makeAll (call :: rest) = (do
      let index ← make call
      let others ← makeAll rest
      pure (index :: others)) :=
  List.mapM_cons

/-- Choosing for several counts is choosing for the first and then for the others. -/
theorem chooseAll_cons (count : Nat) (rest : List Nat) :
    chooseAll (count :: rest) = (do
      let index ← choose count
      let others ← chooseAll rest
      pure (index :: others)) :=
  List.mapM_cons

section

variable {α β : Type} {first : Sampling α} {next : α → Sampling β} {tape after : Tape}

/-- What follows a computation with a result starts from the tape it leaves. -/
theorem bind_of_ok {value : α} (hfirst : first tape = .ok value after) :
    (first >>= next) tape = next value after := by
  change EStateM.bind first next tape = _
  rw [EStateM.bind, hfirst]

/-- Nothing follows a computation that fails. -/
theorem bind_of_error {fault : SpinError} (hfirst : first tape = .error fault after) :
    (first >>= next) tape = .error fault after := by
  change EStateM.bind first next tape = _
  rw [EStateM.bind, hfirst]

/-- What follows a computation matters only for the results that it has. -/
theorem bind_congr {other : α → Sampling β}
    (hnext : ∀ tape value after, first tape = .ok value after → next value after = other value after) :
    first >>= next = first >>= other := by
  funext tape
  cases hfirst : first tape with
  | ok value after => rw [bind_of_ok hfirst, bind_of_ok hfirst, hnext tape value after hfirst]
  | error fault after => rw [bind_of_error hfirst, bind_of_error hfirst]

/-- A result of a computation and what follows it is a result of what follows at a result of it. -/
theorem exists_of_bind {value : β} (hrun : (first >>= next) tape = .ok value after) :
    ∃ middle between, first tape = .ok middle between ∧ next middle between = .ok value after := by
  cases hfirst : first tape with
  | ok middle between => exact ⟨middle, between, rfl, (bind_of_ok hfirst).symm.trans hrun⟩
  | error fault stuck => cases (bind_of_error hfirst).symm.trans hrun

/-- The results of a row of acts are results of the acts, one for each. -/
theorem forall₂_of_mapM {act : α → Sampling β} {items : List α} {values : List β}
    (hrun : items.mapM act tape = .ok values after) :
    List.Forall₂ (fun item value => ∃ tape after, act item tape = .ok value after) items values := by
  induction items generalizing tape values with
  | nil =>
    cases hrun
    exact .nil
  | cons item rest ih =>
    rw [List.mapM_cons] at hrun
    obtain ⟨value, between, hitem, hrun⟩ := exists_of_bind hrun
    obtain ⟨others, last, hrest, hrun⟩ := exists_of_bind hrun
    cases hrun
    exact .cons ⟨tape, between, hitem⟩ (ih hrest)

end

section

variable {α : Type} {act : α → Sampling Nat} {count : α → Nat}
  (note : α → Nat → List Event → List Event) {items : List α} {tape : Tape}
  (hact : ∀ item tape index after, tape.source.choose? (count item) = some (index, after) →
    act item tape = .ok index ⟨after, note item index tape.events⟩)

include hact

/-- A row of acts, each of which chooses among some alternatives and takes a note, gives the answers
and has taken all notes, if all of them are answered. -/
theorem mapM_of_some {indices : List Nat} {after : Source}
    (hchosen : tape.source.chooseAll? (items.map count) = some (indices, after)) :
    items.mapM act tape = .ok indices
      ⟨after, (items.zip indices).foldl (fun events pair => note pair.1 pair.2 events)
        tape.events⟩ := by
  induction items generalizing tape indices with
  | nil =>
    simp only [List.map_nil, Source.chooseAll?, Option.some.injEq, Prod.mk.injEq] at hchosen
    obtain ⟨rfl, rfl⟩ := hchosen
    rfl
  | cons item rest ih =>
    obtain ⟨index, next, others, hfirst, hrest, rfl⟩ := Source.chooseAll?_cons.mp hchosen
    let behind : Tape := ⟨next, note item index tape.events⟩
    have hothers : rest.mapM act behind = .ok others ⟨after, _⟩ := ih hrest
    rw [List.mapM_cons, bind_of_ok (hact item tape index next hfirst), bind_of_ok hothers]
    rfl

/-- A row of acts, each of which chooses among some alternatives and takes a note, stalls if one of
them is not answered. -/
theorem mapM_of_none
    (hstall : ∀ item tape, tape.source.choose? (count item) = none →
      act item tape = .error .stalled tape)
    (hstalled : tape.source.chooseAll? (items.map count) = none) :
    ∃ stuck, items.mapM act tape = .error .stalled stuck := by
  induction items generalizing tape with
  | nil => simp [Source.chooseAll?] at hstalled
  | cons item rest ih =>
    rw [List.mapM_cons]
    cases hfirst : tape.source.choose? (count item) with
    | none => exact ⟨tape, bind_of_error (hstall item tape hfirst)⟩
    | some chosen =>
      obtain ⟨index, next⟩ := chosen
      simp only [List.map_cons, Source.chooseAll?, hfirst, Option.bind_eq_bind,
        Option.bind_some] at hstalled
      have hrest : next.chooseAll? (rest.map count) = none := by
        cases hnext : next.chooseAll? (rest.map count) with
        | none => rfl
        | some others => simp [hnext] at hstalled
      let behind : Tape := ⟨next, note item index tape.events⟩
      have hbehind : ∃ stuck, rest.mapM act behind = .error .stalled stuck := ih hrest
      obtain ⟨stuck, hstuck⟩ := hbehind
      refine ⟨stuck, ?_⟩
      rw [bind_of_ok (hact item tape index next hfirst)]
      exact bind_of_error hstuck

end

/-- A choice that the source answers is this answer, and the source moves on. -/
theorem choose_of_some {count index : Nat} {tape : Tape} {after : Source}
    (hchosen : tape.source.choose? count = some (index, after)) :
    choose count tape = .ok index ⟨after, tape.events⟩ := by
  rw [choose, hchosen]

/-- A choice that the source never answers stalls. -/
theorem choose_of_none {count : Nat} {tape : Tape} (hstalled : tape.source.choose? count = none) :
    choose count tape = .error .stalled tape := by
  rw [choose, hstalled]

/-- A call that the source answers is reported with this answer. -/
theorem make_of_some {call : Call} {tape : Tape} {index : Nat} {after : Source}
    (hchosen : tape.source.choose? call.count = some (index, after)) :
    make call tape = .ok index ⟨after, call.report index :: tape.events⟩ := by
  rw [make, bind_of_ok (choose_of_some hchosen)]
  rfl

/-- A call that the source never answers stalls, and nothing is reported. -/
theorem make_of_none {call : Call} {tape : Tape}
    (hstalled : tape.source.choose? call.count = none) :
    make call tape = .error .stalled tape := by
  rw [make, bind_of_error (choose_of_none hstalled)]

/-- A row of calls that are all answered gives the answers and records each call. -/
theorem makeAll_of_some {calls : List Call} {tape : Tape} {indices : List Nat} {after : Source}
    (hchosen : tape.source.chooseAll? (calls.map Call.count) = some (indices, after)) :
    makeAll calls tape =
      .ok indices ⟨after, (List.zipWith Call.report calls indices).reverse ++ tape.events⟩ := by
  have hrow := mapM_of_some (fun call index events => call.report index :: events)
    (fun _ _ _ _ => make_of_some) hchosen
  rw [makeAll, hrow, List.foldl_flip_cons_eq_append, List.map_zip_eq_zipWith]
  rfl

/-- A row of calls of which one is not answered stalls. -/
theorem makeAll_of_none {calls : List Call} {tape : Tape}
    (hstalled : tape.source.chooseAll? (calls.map Call.count) = none) :
    ∃ stuck, makeAll calls tape = .error .stalled stuck :=
  mapM_of_none (fun call index events => call.report index :: events)
    (fun _ _ _ _ => make_of_some) (fun _ _ => make_of_none) hstalled

/-- A row of choices that are all answered gives the answers and records nothing. -/
theorem chooseAll_of_some {counts : List Nat} {tape : Tape} {indices : List Nat} {after : Source}
    (hchosen : tape.source.chooseAll? counts = some (indices, after)) :
    chooseAll counts tape = .ok indices ⟨after, tape.events⟩ := by
  rw [← List.map_id counts] at hchosen
  have hrow := mapM_of_some (fun _ _ events => events) (fun _ _ _ _ => choose_of_some) hchosen
  rw [List.foldl_fixed] at hrow
  exact hrow

/-- A row of choices of which one is not answered stalls. -/
theorem chooseAll_of_none {counts : List Nat} {tape : Tape}
    (hstalled : tape.source.chooseAll? counts = none) :
    ∃ stuck, chooseAll counts tape = .error .stalled stuck := by
  rw [← List.map_id counts] at hstalled
  exact mapM_of_none (fun _ _ events => events) (fun _ _ _ _ => choose_of_some)
    (fun _ _ => choose_of_none) hstalled

end Sampling

end Spintax
