import Spintax.Fault
import Spintax.Random.Source

/-!
# Sampling

Computations that draw from a random source and report events. A computation that fails keeps the
draws it has made and the events it has reported, so that both can be accounted for on every path.
-/

namespace Spintax

/-- What an engine reports while it works. -/
inductive Event where
  /-- A group that opened at byte `start` was replaced by one of its alternatives. -/
  | resolvedGroup (start alternatives chosen : Nat)
  /-- The value of a placeholder was resolved and is about to be put in. -/
  | substituting (name : String)
  /-- A template was spun; lengths are in bytes. -/
  | spun (templateLength outputLength : Nat) (substituted : Bool)
  /-- The group markers of a template do not balance. -/
  | unbalanced (balance : Int)
  /-- A template refers to names that cannot be substituted. -/
  | unusable (names : List String)
deriving DecidableEq, Repr

/-- A random source and the events reported so far, the latest first. -/
structure Tape where
  source : Source
  events : List Event := []
deriving Inhabited

/-- A computation over a tape. -/
abbrev Sampling := EStateM SpinError Tape

namespace Sampling

/-- Report an event. -/
def report (event : Event) : Sampling Unit :=
  modify fun tape => { tape with events := event :: tape.events }

/-- Choose an index below `n`. -/
def choose (n : Nat) : Sampling Nat := fun tape =>
  match tape.source.choose? n with
  | some (index, source) => .ok index { tape with source := source }
  | none => .error .stalled tape

end Sampling

end Spintax
