import ModulePins.Descriptor.Inheritance
import ModulePins.Json.Printer

/-!
# Descriptor documents

The document that a module publishes: a JSON object whose members always come in the same order.
The text of a document is what decides whether a file has to be written again, so it depends on
nothing but the content given here.

* `Document` — the content of a document;
* `Document.toJson`, `Document.text` — the JSON value and its text. For the console the sensitive
  defaults can be masked.
-/

namespace ModulePins

/-- The content of a descriptor document. -/
structure Document where
  schemaVersion : String
  artifactId : String
  moduleId : Option String
  displayName : Option String
  description : Option String
  properties : List Property
  outputs : List Pin
  inputs : List Pin
  deriving DecidableEq, Repr, Inhabited

namespace Document

/-- The version of documents without one of their own. -/
def standardVersion : String := "1.0"

/-- The default of a property as the document shows it. -/
def shownDefault (masked : Bool) (p : Property) : Json :=
  .str (if masked then p.shownDefault else p.defaultValue)

/-- A property of the module. -/
def moduleProperty (masked : Bool) (p : Property) : Json :=
  .object
    [("key", .str p.key), ("type", .str p.type), ("envVar", .str p.envVar),
     ("required", .bool p.required), ("sensitive", .bool p.sensitive),
     ("defaultValue", shownDefault masked p), ("description", .str p.description)]

/-- A property of an output pin. -/
def pinProperty (masked : Bool) (p : Property) : Json :=
  .object
    [("key", .str p.key), ("required", .bool p.required), ("sensitive", .bool p.sensitive),
     ("defaultValue", shownDefault masked p)]

/-- An output pin. -/
def output (masked : Bool) (p : Pin) : Json :=
  .object
    [("id", .str p.id), ("required", .bool p.required),
     ("properties", .array (p.properties.map (pinProperty masked)))]

/-- An input pin; its properties are not shown. -/
def input (p : Pin) : Json :=
  .object [("id", .str p.id), ("required", .bool p.required)]

/-- The document as a JSON value. -/
def toJson (d : Document) (masked : Bool) : Json :=
  .object
    [("schemaVersion", .str d.schemaVersion), ("artifactId", .str d.artifactId),
     ("moduleId", .ofOption d.moduleId), ("displayName", .ofOption d.displayName),
     ("description", .ofOption d.description),
     ("properties", .array (d.properties.map (moduleProperty masked))),
     ("pins", .object
       [("output", .array (d.outputs.map (output masked))),
        ("input", .array (d.inputs.map input))])]

/-- The text of the document. -/
def text (d : Document) (masked : Bool) : String := (d.toJson masked).toText .unicode

end Document

end ModulePins
