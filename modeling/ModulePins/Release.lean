/-!
# Release

The version of the program, and the names under which its parts are offered to others.
-/

namespace ModulePins

namespace Release

/-- The name of the program. -/
def programName : String := "water-workspace"

/-- The version of the program. -/
def version : String := "0.1.0"

/-- The names that are offered. -/
def names : List String :=
  ["ConfigError", "InheritanceCycleError", "ModuleDescriptor", "PinDeclarationError",
   "StandardPins", "UnknownModuleError", "UnknownStandardPinError", "WaterError", "Workspace",
   "discover", "render_descriptor", "resolve_effective_pins", "__version__"]

end Release

end ModulePins
