import KeyScript.Text.Basic

/-!
The tokens of a document. Besides what is written there are tokens for the
structure that the indentation gives.
-/

namespace KeyScript
namespace Yaml

inductive Token where
  | streamStart
  | version (major minor : Nat)
  | tagHandle (handle expansion : Text)
  | documentStart
  | documentEnd
  | streamEnd
  | blockSequenceStart
  | blockMappingStart
  | blockEnd
  | flowSequenceStart
  | flowSequenceEnd
  | flowMappingStart
  | flowMappingEnd
  | blockEntry
  | flowEntry
  | key
  | value
  | anchor (name : Text)
  | alias (name : Text)
  /-- A tag: its suffix, and the handle that says how to complete it. -/
  | tag (handle suffix : Text)
  /-- The text of a scalar; plain text may stand for a value of another type. -/
  | scalar (text : Text) (plain : Bool)
deriving DecidableEq, Repr

end Yaml
end KeyScript
