import ModulePins.Keyed
import ModulePins.Log
import ModulePins.Text.Quoted

/-!
# Properties

A property is one configuration value of a pin or a module: a key, whether a value is required,
whether it is sensitive, and how it is shown and set. A sensitive default is masked wherever it
might be seen; an empty one has nothing to hide.

* `Property.shownDefault` — the default as consoles and logs may show it;
* `Property.declare` — adds a property to a list: one with the same key is replaced in place.
-/

namespace ModulePins

/-- A configuration property. -/
structure Property where
  key : String
  required : Bool := true
  sensitive : Bool := false
  defaultValue : String := ""
  description : String := ""
  type : String := "string"
  envVar : String := ""
  deriving DecidableEq, Repr, Inhabited

namespace Property

/-- What stands in place of a sensitive default. -/
def mask : String := "******"

/-- The default as it may be shown. -/
def shownDefault (p : Property) : String :=
  if p.sensitive && p.defaultValue ≠ "" then mask else p.defaultValue

/-- The property as messages show it. -/
def shown (p : Property) : String :=
  "PinProperty(key=" ++ Text.quoted p.key ++ ", required=" ++ Text.truth p.required ++
    ", sensitive=" ++ Text.truth p.sensitive ++ ", default_value=" ++
    Text.quoted p.shownDefault ++ ", type=" ++ Text.quoted p.type ++ ")"

/-- The record of a declaration that replaces another one. -/
def redeclared (key : String) : Record :=
  ⟨.debug, .properties, Subsystem.pins.say
    ("Property " ++ Text.quoted key ++ " redeclared, replacing previous declaration")⟩

/-- Declares a property: it replaces the first one with its key, or comes last. -/
def declare (p : Property) (ps : List Property) : List Property := Keyed.put Property.key p ps

/-- The records of a declaration. -/
def declarationLog (p : Property) (ps : List Property) : List Record :=
  if Keyed.hasKey Property.key p.key ps then [redeclared p.key] else []

end Property

end ModulePins
