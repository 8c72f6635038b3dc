import ModulePins.Fault
import ModulePins.Pin.Property

/-!
# Pins

A pin is a configuration contract under an id. A module's output pin is a group of properties that
it provides values for; its input pin is a contract that it needs some module to provide. Only
resolution gives an input pin properties: those of the module's own output with the same id.

A pin is declared with a list of edits. On an output pin an edit sets whether the pin is required
or declares a property, either field by field or by a row of values; an input pin takes the first
kind only.
-/

namespace ModulePins

/-- A configuration contract. -/
structure Pin where
  id : String
  required : Bool
  properties : List Property
  deriving DecidableEq, Repr, Inhabited

/-- One step of a pin's declaration. -/
inductive PinEdit where
  | require (required : Bool)
  | property (p : Property)
  /-- A property given by a row of values. -/
  | propertyRow (p : Property)
  deriving DecidableEq, Repr

/-- The two kinds of pins of a module. -/
inductive Direction where
  | output
  | input
  deriving DecidableEq, Repr

namespace Direction

/-- The word for the kind. -/
def word : Direction → String
  | output => "output"
  | input => "input"

end Direction

namespace Pin

/-- Declares a property on the pin. -/
def declare (p : Pin) (q : Property) : Pin :=
  { p with properties := q.declare p.properties }

/-- One edit of an output pin, with its records. -/
def edit (p : Pin) : PinEdit → Pin × List Record
  | .require b => ({ p with required := b }, [])
  | .property q | .propertyRow q => (p.declare q, q.declarationLog p.properties)

/-- The edits one after the other. -/
def editAll (p : Pin) (es : List PinEdit) : Pin × List Record :=
  es.foldl (fun acc e =>
    let (q, log) := acc.1.edit e
    (q, acc.2 ++ log)) (p, [])

/-- One edit of an input pin. -/
def editInput (p : Pin) : PinEdit → Except Fault Pin
  | .require b => .ok { p with required := b }
  | .property _ => .error (.value (.noMember "InputPin" "property"))
  | .propertyRow _ => .error (.value (.noMember "InputPin" "add_property"))

/-- The pin with the properties of another one. -/
def attach (p other : Pin) : Pin := { p with properties := other.properties }

/-- An output pin as messages show it. -/
def shownOutput (p : Pin) : String :=
  "OutputPin(id=" ++ Text.quoted p.id ++ ", required=" ++ Text.truth p.required ++
    ", properties=" ++ toString p.properties.length ++ ")"

/-- An input pin as messages show it. -/
def shownInput (p : Pin) : String :=
  "InputPin(id=" ++ Text.quoted p.id ++ ", required=" ++ Text.truth p.required ++ ")"

end Pin

end ModulePins
