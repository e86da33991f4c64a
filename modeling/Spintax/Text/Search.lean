/-!
# Occurrences and replacement

Where a pattern occurs in a text, and the text with all its occurrences replaced. Occurrences are
taken from left to right and do not overlap: after one is found, the search goes on behind it.
-/

namespace Spintax.Text

/-- Whether the pattern occurs among the characters. -/
def occurs (pattern : List Char) : List Char → Bool
  | [] => pattern.isEmpty
  | c :: cs => pattern.isPrefixOf (c :: cs) || occurs pattern cs

/-- Write `replacement` for each occurrence of the pattern, appending to what is written already. -/
def replaceFrom (pattern : List Char) (replacement written : String) : List Char → String
  | [] => written
  | c :: cs =>
    if pattern.isPrefixOf (c :: cs) then
      replaceFrom pattern replacement (written ++ replacement) (cs.drop (pattern.length - 1))
    else
      replaceFrom pattern replacement (written.push c) cs
termination_by cs => cs.length

end Spintax.Text

namespace Spintax

/-- Whether the pattern occurs in the text. -/
def occursIn (pattern text : String) : Bool :=
  Text.occurs pattern.toList text.toList

/-- The text with every occurrence of a non-empty pattern replaced. -/
def replaceAll (pattern replacement text : String) : String :=
  Text.replaceFrom pattern.toList replacement "" text.toList

end Spintax
