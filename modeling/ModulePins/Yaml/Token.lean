import ModulePins.Yaml.Fault

/-!
# Tokens

What the text of a document consists of: punctuation, the marks that indentation and simple keys
stand for, anchors, tags and scalars. A list of tokens that ends in `fault` was cut off there; one
that does not covers its whole text.
-/

namespace ModulePins

namespace Yaml

/-- A directive line. -/
inductive Directive where
  | version (major minor : Nat)
  | tagHandle (handle uri : String)
  | reserved (name : String)
  deriving DecidableEq, Repr

/-- A token. -/
inductive Token where
  | directive (d : Directive)
  | documentStart
  | documentEnd
  | blockSequenceStart
  | blockMappingStart
  | blockEnd
  | flowSequenceStart
  | flowSequenceEnd
  | flowMappingStart
  | flowMappingEnd
  | flowEntry
  | blockEntry
  | key
  | value
  | alias (name : String)
  | anchor (name : String)
  | tag (handle : Option String) (suffix : String)
  | scalar (text : String) (plain : Bool)
  | fault (cause : Fault)
  deriving DecidableEq, Repr

end Yaml

end ModulePins
