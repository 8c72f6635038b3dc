import ModulePins.Path

/-!
# Coordinates

The name under which a module is published: group, artifact id and version. It also says where the
module's document goes: into a fixed directory below the module, under a name made of artifact id
and version.
-/

namespace ModulePins

/-- The name under which a module is published. -/
structure Coordinate where
  group : String
  artifactId : String
  version : String
  deriving DecidableEq, Repr, Inhabited

namespace Coordinate

/-- The extension of document files. -/
def extension : String := "water.json"

/-- The text of a coordinate. -/
def text (c : Coordinate) : String := c.group ++ ":" ++ c.artifactId ++ ":" ++ c.version

/-- The name of the document file. -/
def fileName (c : Coordinate) : String := c.artifactId ++ "-" ++ c.version ++ "." ++ extension

/-- Where the document of the module in a directory goes. -/
def outputFile (c : Coordinate) (directory : Path) (buildDir descriptorDir : String) : Path :=
  directory / buildDir / descriptorDir / c.fileName

end Coordinate

end ModulePins
