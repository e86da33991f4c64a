import Spintax.Markers.Basic
import Spintax.Text.Quoted

/-!
# Marker sets in diagnostics

How four marker texts are shown to someone who looks for a fault: a title, and each key with its text
in quotes.
-/

namespace Spintax

/-- The texts under a title, each behind its key. -/
def MarkerTexts.display (title : String) (texts : MarkerTexts) : String :=
  let parts := Role.all.map fun role => role.key ++ ": " ++ Text.quoted (texts.get role)
  title ++ " \x7b " ++ ", ".intercalate parts ++ " \x7d"

end Spintax
