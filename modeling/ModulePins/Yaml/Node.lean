import ModulePins.Yaml.Fault

/-!
# Nodes

The content of a document before its scalars are given values: scalars, sequences and mappings,
each with its tag. Aliases have been replaced by what they name.
-/

namespace ModulePins

namespace Yaml

/-- The kinds of content that have a meaning, and all others by their full name. -/
inductive Tag where
  | null
  | bool
  | int
  | float
  | str
  | binary
  | timestamp
  | seq
  | map
  | set
  | omap
  | pairs
  | merge
  | value
  | foreign (uri : String)
  deriving DecidableEq, Repr

namespace Tag

/-- What the full names of the known kinds begin with. -/
def space : String := "tag:yaml.org,2002:"

/-- The known kinds by name. -/
def known : List (String × Tag) :=
  [("null", null), ("bool", bool), ("int", int), ("float", float), ("str", str),
   ("binary", binary), ("timestamp", timestamp), ("seq", seq), ("map", map), ("set", set),
   ("omap", omap), ("pairs", pairs), ("merge", merge), ("value", value)]

/-- The tag with a full name. -/
def ofUri (uri : String) : Tag :=
  match known.find? fun k => space ++ k.1 = uri with
  | some k => k.2
  | none => foreign uri

end Tag

/-- A node. -/
inductive Node where
  | scalar (tag : Tag) (text : String)
  | sequence (tag : Tag) (items : List Node)
  | mapping (tag : Tag) (entries : List (Node × Node))
  deriving Repr

namespace Node

instance : Inhabited Node := ⟨scalar .null ""⟩

def tag : Node → Tag
  | scalar t _ => t
  | sequence t _ => t
  | mapping t _ => t

/-- The node that stands where a document has none. -/
def absent : Node := scalar .null ""

end Node

end Yaml

end ModulePins
