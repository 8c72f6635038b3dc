import ModulePins.BadValue

/-!
# Faults of documents

A document is refused because of its form, or because it writes a value that cannot be made.
-/

namespace ModulePins

/-- Why a document cannot be read. -/
inductive Yaml.Fault where
  /-- The text is no well-formed document of known tags. -/
  | malformed
  /-- The text writes a value that does not exist. -/
  | value (cause : BadValue)
  deriving DecidableEq, Repr

end ModulePins
