import Spintax.Json.Basic
import Spintax.Sampling
import Spintax.Text.Quoted

/-!
# Reports

How the events of the engine read in a log: a level, a message and named fields.
-/

namespace Spintax

/-- How urgent a report is. -/
inductive Level where
  | trace | debug | warning
deriving DecidableEq, Repr

/-- The name of a level in a log. -/
def Level.name : Level → String
  | .trace => "TRACE"
  | .debug => "DEBUG"
  | .warning => "WARN"

namespace Event

/-- How urgent an event is. -/
def level : Event → Level
  | .resolvedGroup _ _ _ => .trace
  | .substituting _ => .debug
  | .spun _ _ _ => .debug
  | .unbalanced _ => .warning
  | .unusable _ => .warning

/-- The message of an event. -/
def message : Event → String
  | .resolvedGroup _ _ _ => "resolved group"
  | .substituting _ => "substituting placeholder"
  | .spun _ _ _ => "spun template"
  | .unbalanced _ => "template markers do not balance"
  | .unusable _ => "template references invalid placeholders"

/-- The fields of an event. Names that cannot be substituted are shown as one quoted list. -/
def fields : Event → List (String × Json)
  | .resolvedGroup start alternatives chosen =>
    [("start", .integer start), ("alternatives", .integer alternatives),
      ("chosen", .integer chosen)]
  | .substituting name => [("name", .string name)]
  | .spun templateLength outputLength substituted =>
    [("template_len", .integer templateLength), ("output_len", .integer outputLength),
      ("apply_substitution", .bool substituted)]
  | .unbalanced balance => [("balance", .integer balance)]
  | .unusable names => [("invalid", .string (Text.quotedList names))]

end Event

end Spintax
