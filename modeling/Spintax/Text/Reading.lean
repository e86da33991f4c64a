/-!
# Reading from the front of a text

A reader takes a value from the front of the characters and leaves the rest. The rest is always
strictly shorter, which is what lets readers be repeated and nested without further bookkeeping.
-/

namespace Spintax.Text

/-- A value read from the front of `cs`, and the characters left over, which are fewer. -/
structure Reading (α : Type) (cs : List Char) where
  value : α
  rest : List Char
  shorter : rest.length < cs.length

namespace Reading

variable {α β : Type} {cs : List Char}

/-- Read one character as the given value. -/
def single (value : α) (c : Char) (rest : List Char) : Reading α (c :: rest) :=
  ⟨value, rest, by simp⟩

/-- Change the value. -/
def map (f : α → β) (reading : Reading α cs) : Reading β cs :=
  ⟨f reading.value, reading.rest, reading.shorter⟩

/-- What was read from a shorter text, read from a longer one. -/
def widen {longer : List Char} (reading : Reading α cs) (fits : cs.length ≤ longer.length) :
    Reading α longer :=
  ⟨reading.value, reading.rest, Nat.lt_of_lt_of_le reading.shorter fits⟩

end Reading

/-- Leaving out a run that is not empty shortens a text. -/
theorem length_dropWhile_lt {p : Char → Bool} {cs : List Char}
    (run : ¬ (cs.takeWhile p).isEmpty = true) : (cs.dropWhile p).length < cs.length := by
  have whole := congrArg List.length (List.takeWhile_append_dropWhile (p := p) (l := cs))
  have positive := List.length_pos_iff.2 (mt List.isEmpty_iff.2 run)
  simp only [List.length_append] at whole
  omega

/-- The value of a hexadecimal digit. -/
def hexDigit? (c : Char) : Option Nat :=
  if '0' ≤ c ∧ c ≤ '9' then some (c.toNat - 48)
  else if 'a' ≤ c ∧ c ≤ 'f' then some (c.toNat - 87)
  else if 'A' ≤ c ∧ c ≤ 'F' then some (c.toNat - 55)
  else none

/-- The number written by digits of the given base, if each is a digit of that base. -/
def numberOf? (base : Nat) (digits : List Char) : Option Nat :=
  digits.foldlM (fun number c => do
    let digit ← hexDigit? c
    if digit < base then some (number * base + digit) else none) 0

/-- The number that decimal digits write. -/
def decimalOf (digits : List Char) : Nat :=
  digits.foldl (fun number c => number * 10 + (c.toNat - 48)) 0

end Spintax.Text
