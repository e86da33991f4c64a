/-!
# Tokens of YAML

The tokens that a YAML text consists of. The end of a text is the end of the list of its tokens.
Besides the characters that are written, indentation gives rise to tokens: a block collection begins
where a deeper column is first used and ends where the text returns to a lesser one.
-/

namespace Spintax.Yaml

/-- A token. -/
inductive Token where
  | version (major minor : Nat)
  | tagDirective (handle stem : String)
  | documentStart
  | documentEnd
  | blockSequenceStart
  | blockMappingStart
  | blockEnd
  | blockEntry
  | flowSequenceStart
  | flowSequenceEnd
  | flowMappingStart
  | flowMappingEnd
  | flowEntry
  | key
  | value
  | alias (name : String)
  | anchor (name : String)
  | tag (handle suffix : String)
  /-- A scalar; plain ones are written without quotes and not as a block. -/
  | scalar (text : String) (plain : Bool)
deriving DecidableEq, Repr

end Spintax.Yaml
