import Spintax.Random.ChaCha

/-!
# Random sources and uniform choices

A source is an endless stream of 64-bit draws and the number of draws already made. To choose one of
`n` alternatives a draw `v` is multiplied by `n`: the high half of the product is the index, and the
draw is rejected when the low half is beyond a zone that holds equally many draws for every index.
A rejected draw is made up for by the next one. Each choice is willing to see `patience` draws, so
a stream whose draws are all rejected is answered by no choice rather than by waiting for ever.
-/

namespace Spintax

/-- A stream of draws, how many have been made, and how many draws one choice may take. -/
structure Source where
  draw : Nat → UInt64
  position : Nat := 0
  patience : Nat := UInt64.size

namespace Source

/-- The draws `initial`, `initial + increment`, … modulo `2 ^ 64`. -/
def steps (initial increment : UInt64) : Source where
  draw position := UInt64.ofNat (initial.toNat + position * increment.toNat)

/-- The listed draws in turn, then zeros. -/
def ofList (draws : List UInt64) : Source where
  draw position := draws.getD position (UInt64.ofNat 0)

/-- The draws that belong to a seed. -/
def seeded (seed : UInt64) : Source :=
  let key := ChaCha.key seed
  { draw := ChaCha.draw key }

instance : Inhabited Source := ⟨ofList []⟩

/-- The greatest low half that a draw for `n` alternatives may leave: `n` shifted to the top of 64
bits, less one. -/
def zone (n : Nat) : Nat :=
  (n <<< (63 - Nat.log2 n)) - 1

/-- Whether a draw is used for a choice among `n`. -/
def accepts (n : Nat) (draw : UInt64) : Bool :=
  draw.toNat * n % UInt64.size ≤ zone n

/-- The index that a draw stands for among `n`. -/
def index (n : Nat) (draw : UInt64) : Nat :=
  draw.toNat * n / UInt64.size

/-- The first position, of `tries` from `position` on, whose draw is accepted for `n`. -/
def accepted? (source : Source) (n : Nat) : Nat → Nat → Option Nat
  | 0, _ => none
  | tries + 1, position =>
    if accepts n (source.draw position) then some position
    else source.accepted? n tries (position + 1)

/-- Choose an index below `n` by the first accepted draw, and leave the source after that draw. -/
def choose? (source : Source) (n : Nat) : Option (Nat × Source) :=
  (source.accepted? n source.patience source.position).map fun position =>
    (index n (source.draw position), { source with position := position + 1 })

/-- An index is always below the number of alternatives. -/
theorem index_lt {n : Nat} (positive : 0 < n) (draw : UInt64) : index n draw < n := by
  rw [index, Nat.div_lt_iff_lt_mul (by decide), Nat.mul_comm n]
  exact Nat.mul_lt_mul_of_pos_right draw.toNat_lt positive

/-- An index that is chosen is below the count. -/
theorem lt_of_choose? {source after : Source} {n i : Nat} (positive : 0 < n)
    (chosen : source.choose? n = some (i, after)) : i < n := by
  simp only [choose?, Option.map_eq_some_iff, Prod.mk.injEq] at chosen
  obtain ⟨position, _, rfl, _⟩ := chosen
  exact index_lt positive _

/-- The zero draw is accepted for every number of alternatives. -/
theorem accepts_zero (n : Nat) : accepts n 0 = true := by
  simp [accepts]

end Source

end Spintax
