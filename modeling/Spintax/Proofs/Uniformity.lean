import Mathlib.Algebra.Group.Action.Defs
import Mathlib.Data.FinEnum
import Mathlib.Data.Nat.Size
import Mathlib.Order.Interval.Set.Nat
import Spintax.Proofs.Expansions
import Spintax.Proofs.Slices

/-!
# Every vector of choices has equally many rows of draws

The products of the 64-bit draws with a number of alternatives are its multiples. A draw stands for
an index and is accepted when its product lies in a window behind `index * 2 ^ 64`. The width of the
window is a multiple of the number of alternatives, by the power of two that shifts the highest bit
of that number to the top. So each window holds as many products as that power of two, wherever the
multiples lie in it, and together the windows take up at least half of all products.

A row of calls uses one accepted draw for each call, whatever is rejected between them. The numbers
of alternatives do not depend on what is chosen, so the rows for a vector of indices are the tuples
of draws for the single indices, and there are as many for each vector.
-/

namespace Spintax

namespace Source

/-- How many of the 64 bits of a number are zeros in front of its highest bit. -/
def leadingZeros (count : Nat) : Nat :=
  64 - count.size

/-- The draws that are accepted for a choice among `count` and stand for `index`. -/
def drawsFor (count index : Nat) : Set UInt64 :=
  {draw | accepts count draw = true ∧ Source.index count draw = index}

/-- The rows of draws, one for each of the numbers of alternatives, that are accepted and stand for
the indices. -/
def rows (counts indices : List Nat) : Set (List UInt64) :=
  {draws | List.Forall₂ (fun count draw => accepts count draw = true) counts draws ∧
    List.zipWith index counts draws = indices}

section

variable {count : Nat} (hpos : 0 < count)

include hpos

/-- The zone ends where the number of alternatives stands when it is shifted to the top. -/
theorem accepts_iff {draw : UInt64} :
    accepts count draw = true ↔
      draw.toNat * count % UInt64.size < count * 2 ^ leadingZeros count := by
  have hsize : count.size = count.log2 + 1 :=
    Nat.le_antisymm (Nat.size_le.mpr Nat.lt_log2_self)
      (Nat.lt_size.mpr (Nat.log2_self_le (Nat.ne_of_gt hpos)))
  have hshifted : 0 < count * 2 ^ leadingZeros count := Nat.mul_pos hpos (Nat.two_pow_pos _)
  rw [leadingZeros, hsize, Nat.add_sub_add_right 63 1] at hshifted ⊢
  rw [accepts, decide_eq_true_eq, zone, Nat.shiftLeft_eq]
  omega

/-- Draws at a distance behind the least one for an index have products that are as many times the
number of alternatives further on. -/
theorem leastDraw_add_le_iff (index distance value : Nat) :
    leastDraw count index + distance ≤ value ↔
      index * UInt64.size + count * distance ≤ count * value := by
  rw [leastDraw, ← Nat.add_mul_div_left _ _ hpos, Nat.div_le_iff_le_mul_add_pred hpos]
  omega

variable (hcount : count < UInt64.size)

include hcount

/-- Shifted to the top, a number fills more than half of 64 bits. -/
theorem shifted_bounds :
    2 ^ 63 ≤ count * 2 ^ leadingZeros count ∧ count * 2 ^ leadingZeros count ≤ UInt64.size := by
  have hsize : count.size ≤ 64 := Nat.size_le.mpr hcount
  have hlow : 2 ^ (count.size - 1) ≤ count :=
    Nat.lt_size.mp (Nat.sub_lt (Nat.size_pos.mpr hpos) Nat.one_pos)
  constructor
  · calc
      2 ^ 63 = 2 ^ (count.size - 1) * 2 ^ leadingZeros count := by
        have hshift : count.size - 1 + (64 - count.size) = 63 := by
          have := Nat.size_pos.mpr hpos
          omega
        rw [← Nat.pow_add, leadingZeros, hshift]
      _ ≤ count * 2 ^ leadingZeros count := Nat.mul_le_mul_right _ hlow
  · calc
      count * 2 ^ leadingZeros count ≤ 2 ^ count.size * 2 ^ leadingZeros count :=
        Nat.mul_le_mul_right _ count.lt_size_self.le
      _ = UInt64.size := by
        rw [← Nat.pow_add, leadingZeros, Nat.add_sub_cancel' hsize]

/-- The draws for an index follow each other from the least one on. -/
theorem mem_drawsFor_iff {index : Nat} {draw : UInt64} :
    draw ∈ drawsFor count index ↔
      leastDraw count index ≤ draw.toNat ∧
        draw.toNat < leastDraw count index + 2 ^ leadingZeros count := by
  have hwidth := (shifted_bounds hpos hcount).2
  have hleast := leastDraw_add_le_iff hpos index 0 draw.toNat
  have hend := (leastDraw_add_le_iff hpos index (2 ^ leadingZeros count) draw.toNat).not
  have hproduct := Nat.div_add_mod' (draw.toNat * count) UInt64.size
  rw [Nat.add_zero, Nat.mul_zero, Nat.add_zero, Nat.mul_comm count] at hleast
  rw [not_le, not_le, Nat.mul_comm count draw.toNat] at hend
  rw [drawsFor, Set.mem_ofPred_eq, accepts_iff hpos, Source.index, hleast, hend]
  constructor
  · rintro ⟨haccepted, rfl⟩
    omega
  · -- The window is not wider than `2 ^ 64`, so all products in it have the same high half.
    rintro ⟨hbegins, hbefore⟩
    have hindex : draw.toNat * count / UInt64.size = index :=
      Nat.div_eq_of_lt_le hbegins (by rw [Nat.succ_mul]; omega)
    rw [hindex] at hproduct
    exact ⟨by omega, hindex⟩

/-- For each index there are as many draws as the power of two that shifts the number of
alternatives to the top. -/
theorem ncard_drawsFor {index : Nat} (hindex : index < count) :
    (drawsFor count index).ncard = 2 ^ leadingZeros count := by
  have hdraws : drawsFor count index = Set.preimage UInt64.toNat
      (Set.Ico (leastDraw count index) (leastDraw count index + 2 ^ leadingZeros count)) :=
    Set.ext fun draw => mem_drawsFor_iff hpos hcount
  have hlast : leastDraw count index + 2 ^ leadingZeros count ≤ UInt64.size := by
    have hwidth := (shifted_bounds hpos hcount).2
    have hnext : (index + 1) * UInt64.size ≤ count * UInt64.size := Nat.mul_le_mul_right _ hindex
    rw [Nat.succ_mul] at hnext
    rw [leastDraw_add_le_iff hpos]
    omega
  rw [hdraws, Set.ncard_preimage_of_injective_subset_range (fun _ _ => UInt64.toNat.inj),
    Set.ncard_Ico_nat, Nat.add_sub_cancel_left]
  rintro value ⟨-, hvalue⟩
  exact ⟨UInt64.ofNat value, UInt64.toNat_ofNat_of_lt' (Nat.lt_of_lt_of_le hvalue hlast)⟩

/-- Over all indices as many draws are accepted as the number of alternatives shifted to the top. -/
theorem ncard_accepted :
    {draw | accepts count draw = true}.ncard = count * 2 ^ leadingZeros count := by
  let accepted : Finset UInt64 := {draw | accepts count draw = true}
  have hindex : Set.MapsTo (index count) accepted (Finset.range count) := fun draw _ =>
    Finset.mem_coe.mpr (Finset.mem_range.mpr (index_lt hpos draw))
  have hfiber (index : Nat) (hmem : index ∈ Finset.range count) :
      (accepted.filter (Source.index count · = index)).card = 2 ^ leadingZeros count := by
    rw [← ncard_drawsFor hpos hcount (Finset.mem_range.mp hmem), ← Set.ncard_coe_finset]
    congr 1
    ext draw
    simp [accepted, drawsFor]
  have hset : {draw | accepts count draw = true} = (accepted : Set UInt64) := by
    ext draw
    simp [accepted]
  rw [hset, Set.ncard_coe_finset, Finset.card_eq_sum_card_fiberwise hindex,
    Finset.sum_congr rfl hfiber, Finset.sum_const, Finset.card_range, smul_eq_mul]

end

/-- A row for one more call has a draw for it in front. -/
theorem rows_cons (count index : Nat) (counts indices : List Nat) :
    rows (count :: counts) (index :: indices) =
      Set.image2 List.cons (drawsFor count index) (rows counts indices) := by
  ext draws
  simp only [Set.mem_image2, rows, drawsFor, Set.mem_ofPred_eq]
  constructor
  · rintro ⟨haccepted, hindices⟩
    cases haccepted with
    | @cons _ draw _ draws haccepts hrest =>
      obtain ⟨hindex, hothers⟩ := List.cons.inj hindices
      exact ⟨draw, ⟨haccepts, hindex⟩, draws, ⟨hrest, hothers⟩, rfl⟩
  · rintro ⟨draw, ⟨haccepts, rfl⟩, draws, ⟨hrest, rfl⟩, rfl⟩
    exact ⟨.cons haccepts hrest, rfl⟩

/-- Each vector of indices has the same number of rows. -/
theorem ncard_rows {counts indices : List Nat} (hindices : List.Forall₂ (· < ·) indices counts)
    (hcounts : ∀ count ∈ counts, count < UInt64.size) :
    (rows counts indices).ncard = (counts.map fun count => 2 ^ leadingZeros count).prod := by
  induction hindices with
  | nil =>
    have hrows : rows [] [] = {[]} := by
      ext draws
      simp [rows, List.forall₂_nil_left_iff]
    rw [hrows, Set.ncard_singleton, List.map_nil, List.prod_nil]
  | @cons index count indices counts hindex _ ih =>
    rw [List.forall_mem_cons] at hcounts
    have hcons : Function.Injective fun row : UInt64 × List UInt64 => row.1 :: row.2 :=
      fun _ _ heq => Prod.ext_iff.mpr (List.cons.inj heq)
    rw [rows_cons, ← Set.image_prod, Set.ncard_image_of_injective _ hcons, Set.ncard_prod,
      ncard_drawsFor (Nat.zero_lt_of_lt hindex) hcounts.1 hindex, ih hcounts.2, List.map_cons,
      List.prod_cons]

/-- The draws that a row of calls uses are a row of accepted draws. -/
theorem Sifted.mem_rows {patience : Nat} {counts : List Nat} {made used : List UInt64}
    (hsifted : Sifted patience counts made used) :
    used ∈ rows counts (List.zipWith index counts used) := by
  refine ⟨?_, rfl⟩
  induction hsifted with
  | nil => exact .nil
  | cons _ _ haccepted _ ih => exact .cons haccepted ih

end Source

/-- No group of an outline has more alternatives than the outline has characters when written. -/
theorem Outline.count_le (delimiters : Delimiters) (outline : Outline) :
    ∀ count ∈ outline.counts, count ≤ (outline.tokens.flatMap delimiters.written).length := by
  induction outline with
  | nil => simp [counts]
  | text chunk rest ih =>
    intro count hmem
    have hle := ih count hmem
    rw [tokens, List.flatMap_cons, List.length_append]
    omega
  | separator rest ih =>
    intro count hmem
    have hle := ih count hmem
    rw [tokens, List.flatMap_cons, List.length_append]
    omega
  | group alternatives rest ih =>
    intro count hmem
    have hsign := length_written_mark_pos delimiters .opening
    have hlength := alternatives.length_le delimiters
    rw [tokens, List.flatMap_cons, List.flatMap_append, List.flatMap_cons]
    simp only [List.length_append]
    rcases List.mem_append.mp hmem with hmem | hmem
    · have := alternatives.count_le delimiters count hmem
      omega
    · rcases List.mem_cons.mp hmem with rfl | hmem
      · omega
      · have := ih count hmem
        omega

namespace Markers

variable {markers : Markers} {text : String} {outline : Outline}

/-- The groups of a text that is held in memory have 64-bit numbers of alternatives. -/
theorem count_lt_of_size (htokens : outline.tokens = markers.tokens text)
    (hsize : text.utf8ByteSize < UInt64.size) : ∀ count ∈ outline.counts, count < UInt64.size := by
  intro count hmem
  obtain ⟨-, hwritten, -⟩ := markers.lexemes_tile text
  have hle := outline.count_le markers.delimiters count hmem
  rw [htokens, hwritten] at hle
  have hbytes := length_le_byteLength text.toList
  rw [utf8ByteSize_eq_byteLength] at hsize
  omega

/-- No group of a text is without alternatives. -/
theorem count_pos (htokens : outline.tokens = markers.tokens text) :
    ∀ count ∈ outline.counts, 0 < count := by
  rw [← map_count_calls htokens, List.forall_mem_map]
  exact count_pos_of_mem_callsFrom (by simp)

/-- A text has an output when its calls use up the draws to come. The output is the value at the
indices that a row of these draws stands for, and the calls are recorded with them. -/
theorem resolve_eq_ok_iff (htokens : outline.tokens = markers.tokens text) {tape last : Tape}
    {output : String} :
    markers.resolve text tape = .ok output last ↔
      ∃ indices, ∃ used ∈ Source.rows outline.counts indices, ∃ made,
        Source.Sifted tape.source.patience outline.counts made used ∧
        tape.source.upcoming made.length = made ∧
        output = outline.evaluate (markers.get .separator) indices ∧
        last = ⟨tape.source.skip made.length,
          (List.zipWith Call.report (markers.calls text) indices).reverse ++ tape.events⟩ := by
  have hcounts := map_count_calls htokens
  constructor
  · intro hresolve
    cases hchosen : tape.source.chooseAll? outline.counts with
    | none =>
      obtain ⟨stuck, hstuck⟩ := markers.resolve_of_none text (hcounts.symm ▸ hchosen)
      cases hstuck.symm.trans hresolve
    | some chosen =>
      obtain ⟨indices, after⟩ := chosen
      rw [markers.resolve_of_some text (hcounts.symm ▸ hchosen), outcome_eq_evaluate htokens]
        at hresolve
      cases hresolve
      obtain ⟨made, used, hsifted, hmade, rfl, rfl⟩ := Source.chooseAll?_eq_some_iff.mp hchosen
      exact ⟨_, used, hsifted.mem_rows, made, hsifted, hmade, rfl, rfl⟩
  · rintro ⟨_, used, ⟨-, rfl⟩, made, hsifted, hmade, rfl, rfl⟩
    have hchosen := Source.chooseAll?_eq_some_iff.mpr ⟨made, used, hsifted, hmade, rfl, rfl⟩
    rw [markers.resolve_of_some text (by rw [hcounts, hchosen]), outcome_eq_evaluate htokens]
    rfl

/-- Every vector of choices is obtained from equally many rows of draws.

An output takes a row of accepted draws, one for each group, and the number of rows for a vector is a product
of powers of two. At least half of all draws are accepted, and zero is, so zeros end every run. -/
theorem resolve_chooses_uniformly (hsound : markers.checkPairing text = .ok ()) :
    ∃ outline : Outline,
      (∀ other : Outline, other.tokens = markers.tokens text ↔ other = outline) ∧
      (markers.calls text).map Call.stop = markers.closingStarts text ∧
      (markers.calls text).map Call.count = outline.counts ∧
      (∀ (tape last : Tape) (output : String), markers.resolve text tape = .ok output last ↔
        ∃ indices, ∃ used ∈ Source.rows outline.counts indices, ∃ made,
          Source.Sifted tape.source.patience outline.counts made used ∧
          tape.source.upcoming made.length = made ∧
          output = outline.evaluate (markers.get .separator) indices ∧
          last = ⟨tape.source.skip made.length,
            (List.zipWith Call.report (markers.calls text) indices).reverse ++ tape.events⟩) ∧
      (∀ indices, ∀ row ∈ Source.rows outline.counts indices, ∀ patience > 0,
        Source.Sifted patience outline.counts row row) ∧
      (text.utf8ByteSize < UInt64.size →
        (∀ indices, List.Forall₂ (· < ·) indices outline.counts →
          (Source.rows outline.counts indices).ncard =
            (outline.counts.map fun count => 2 ^ Source.leadingZeros count).prod) ∧
        ∀ count ∈ outline.counts, 2 ^ 63 ≤ {draw | Source.accepts count draw = true}.ncard) ∧
      (∀ count ∈ outline.counts, Source.accepts count 0 = true) ∧
      ∀ (tape : Tape) (first : Nat), (∀ later, first ≤ later → tape.source.draw later = 0) →
        first - tape.source.position < tape.source.patience →
        ∃ output last, markers.resolve text tape = .ok output last := by
  obtain ⟨outline, hunique⟩ := exists_outline hsound
  have htokens := (hunique outline).mpr rfl
  have hcounts := map_count_calls htokens
  refine ⟨outline, hunique, ?_, hcounts, fun _ _ _ => resolve_eq_ok_iff htokens,
    fun _ _ hrow _ hpatient => .of_accepted hpatient hrow.1, fun hsize => ?_,
    fun count _ => Source.accepts_zero count, fun tape first hzeros hpatient => ?_⟩
  · rw [markers.map_stop_calls text, hsound]
  · have hlt := count_lt_of_size htokens hsize
    refine ⟨fun _ hindices => Source.ncard_rows hindices hlt, fun count hmem => ?_⟩
    have hpos := count_pos htokens count hmem
    rw [Source.ncard_accepted hpos (hlt count hmem)]
    exact (Source.shifted_bounds hpos (hlt count hmem)).1
  · obtain ⟨indices, after, hchosen⟩ :=
      (Source.answering_of_zeros hzeros hpatient).exists_chooseAll? (count_pos htokens)
    rw [← hcounts] at hchosen
    obtain ⟨output, houtput⟩ := exists_outcome_eq_ok hsound indices
    exact ⟨output, _, by rw [markers.resolve_of_some text hchosen, houtput]; rfl⟩

/-- The inner group has three alternatives and the outer one two: there are `2 ^ 62` draws for each
choice. The first draw is rejected. -/
theorem resolve_chooses_uniformly_nested :
    Markers.default.checkPairing "\x7ba|b\x7b|c|d\x7d\x7d" = .ok () ∧
      (Source.rows [3, 2] [1, 1]).ncard = 2 ^ 62 * 2 ^ 62 ∧
      ∃ last, last.source.position = 3 ∧ Markers.default.resolve "\x7ba|b\x7b|c|d\x7d\x7d"
        { source := .ofList [.ofNat (1 <<< 62), .ofNat (1 <<< 63), .ofNat (1 <<< 63)] } =
          .ok "bc" last := by
  have hsound : Markers.default.checkPairing "\x7ba|b\x7b|c|d\x7d\x7d" = .ok () := by decide +kernel
  obtain ⟨outline, hunique, -, -, hruns, -, hcount, -, -⟩ := resolve_chooses_uniformly hsound
  have houtline := (hunique (.group (.more (.text "a" .nil) (.last (.text "b" (.group
    (.more .nil (.more (.text "c" .nil) (.last (.text "d" .nil)))) .nil)))) .nil)).mp (by decide +kernel)
  have hcounts : outline.counts = [3, 2] := by rw [← houtline]; rfl
  have hvalue : outline.evaluate "|" [1, 1] = "bc" := by rw [← houtline]; rfl
  rw [hcounts] at hruns hcount
  have hsifted : Source.Sifted UInt64.size [3, 2]
      ([.ofNat (1 <<< 62)] ++ .ofNat (1 <<< 63) :: ([] ++ .ofNat (1 <<< 63) :: []))
      [.ofNat (1 <<< 63), .ofNat (1 <<< 63)] :=
    .cons (by decide) (List.forall_mem_singleton.mpr rfl) rfl
      (.cons (by decide) (List.forall_mem_nil _) rfl .nil)
  refine ⟨hsound, ?_, _, ?_, (hruns _ _ _).mpr
    ⟨[1, 1], _, hsifted.mem_rows, _, hsifted, rfl, hvalue.symm, rfl⟩⟩
  · rw [(hcount (by decide)).1 [1, 1] (by decide)]
    rfl
  · rfl

end Markers

end Spintax
