import Spintax.Reference
import Spintax.Resolution

/-!
# Substitution of placeholders

The entries of a table are applied in table order. A value whose reference occurs in the text is
resolved once, with choices of its own, and that one sample replaces every occurrence. A value
whose reference does not occur is not resolved at all.
-/

namespace Spintax

namespace Markers

/-- Apply one entry of a table to a text. -/
def substituteEntry (markers : Markers) (text : String) (entry : String × String) :
    Sampling String :=
  let reference := markers.reference entry.1
  if occursIn reference text then do
    let sample ← markers.resolve entry.2
    Sampling.report (.substituting entry.1)
    pure (replaceAll reference sample text)
  else
    pure text

/-- Apply the entries of a table to a text, in table order. -/
def substitute (markers : Markers) (table : Table) (text : String) : Sampling String :=
  table.entries.foldlM markers.substituteEntry text

end Markers

end Spintax
