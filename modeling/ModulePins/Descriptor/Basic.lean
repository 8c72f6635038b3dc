import ModulePins.Pin.Catalog

/-!
# Module descriptors

What one module declares: who it is, its output and input pins, its own properties, and the modules
it inherits pins from. A module without a module id has no document; an empty id counts as one.

Descriptors live in a `Registry` and refer to each other by their number in it, so that two
descriptors with the same content stay two.

* `Descriptor.declareOutput`, `Descriptor.declareInput` — a pin under an id of its own;
* `Descriptor.declareStandardOutput`, `Descriptor.declareStandardInput` — a pin of the catalog;
* `Descriptor.declareProperty`, `Descriptor.inherit` — properties and references.
-/

namespace ModulePins

/-- The number of a descriptor in its registry. -/
abbrev DescriptorId := Nat

/-- The declarations of a module. -/
structure Descriptor where
  name : String
  moduleId : Option String := none
  displayName : Option String := none
  description : Option String := none
  outputs : List Pin := []
  inputs : List Pin := []
  properties : List Property := []
  parents : List DescriptorId := []
  deriving DecidableEq, Repr, Inhabited

/-- The descriptors by number. -/
abbrev Registry := List Descriptor

namespace Descriptor

/-- Does the module have a document? -/
def enabled (d : Descriptor) : Bool := d.moduleId.isSome

/-- The outcome of a declaration: the descriptor and the records of the declaration. -/
abbrev Declared := Descriptor × List Record

/-- A record about a declaration. -/
def declared (message : String) : Record :=
  ⟨.debug, .declarations, Subsystem.pins.say ("Declared " ++ message)⟩

/-- Declares an output pin with an id of its own; it is not required unless an edit says so. -/
def declareOutput (d : Descriptor) (id : String) (edits : List PinEdit) : Declared :=
  let (p, log) := (Pin.mk id false []).editAll edits
  ({ d with outputs := d.outputs ++ [p] },
    log ++ [declared ("output pin " ++ Text.quoted id ++ " (" ++ toString p.properties.length ++
      " properties)")])

/-- Declares an output pin of the catalog, extended by the edits. -/
def declareStandardOutput (d : Descriptor) (mnemonic : String) (edits : List PinEdit) :
    Except Fault Declared := do
  let base ← Catalog.require mnemonic
  let (p, log) := base.editAll edits
  return ({ d with outputs := d.outputs ++ [p] },
    log ++ [declared ("standard output pin " ++ Text.quoted mnemonic ++ " -> " ++
      Text.quoted p.id)])

/-- Declares an input pin with an id of its own; it is required unless an edit says otherwise. -/
def declareInput (d : Descriptor) (id : String) (edits : List PinEdit) : Except Fault Declared := do
  let p ← edits.foldlM Pin.editInput (Pin.mk id true [])
  return ({ d with inputs := d.inputs ++ [p] },
    [declared ("input pin " ++ Text.quoted id ++ " (required=" ++ Text.truth p.required ++ ")")])

/-- Declares an input pin of the catalog, which says whether it is required unless an edit does. -/
def declareStandardInput (d : Descriptor) (mnemonic : String) (edits : List PinEdit) :
    Except Fault Declared := do
  let base ← Catalog.require mnemonic
  let p ← edits.foldlM Pin.editInput (Pin.mk base.id base.required [])
  return ({ d with inputs := d.inputs ++ [p] },
    [declared ("standard input pin " ++ Text.quoted mnemonic ++ " (required=" ++
      Text.truth p.required ++ ")")])

/-- Declares a property of the module itself. -/
def declareProperty (d : Descriptor) (p : Property) : Declared :=
  ({ d with properties := p.declare d.properties }, p.declarationLog d.properties)

/-- Inherits the pins of another descriptor; of several references the later ones win. -/
def inherit (d : Descriptor) (parent : DescriptorId) : Descriptor :=
  { d with parents := d.parents ++ [parent] }

end Descriptor

namespace Registry

/-- The descriptor with a number; one that is not there declares nothing. -/
def get (r : Registry) (i : DescriptorId) : Descriptor :=
  r[i]?.getD ⟨"", none, none, none, [], [], [], []⟩

/-- The name a descriptor is known by in messages: its own, else its module id, else its number. -/
def label (r : Registry) (i : DescriptorId) : String :=
  let d := r.get i
  if d.name ≠ "" then d.name
  else
    match d.moduleId with
    | some m => if m ≠ "" then m else unnamed
    | none => unnamed
where
  /-- The label of a descriptor without a name. -/
  unnamed : String := "<module@" ++ Text.natDigits 16 1 i ++ ">"

/-- The descriptor as messages show it. -/
def shown (r : Registry) (i : DescriptorId) : String :=
  let d := r.get i
  "ModuleDescriptor(name=" ++ Text.quoted d.name ++ ", module_id=" ++
    Text.quotedOption d.moduleId ++ ", outputs=" ++ toString d.outputs.length ++ ", inputs=" ++
    toString d.inputs.length ++ ", inherits_from=" ++
    Text.quotedList (d.parents.map fun p => (r.get p).name) ++ ")"

/-- Replaces the descriptor with a number. -/
def update (r : Registry) (i : DescriptorId) (d : Descriptor) : Registry := r.set i d

end Registry

end ModulePins
