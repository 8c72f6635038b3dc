import ModulePins.Descriptor.Basic
import ModulePins.Schema.Fields

/-!
# Module files

What a module file declares: group, name and version of the module, and what goes into its
descriptor. A pin is declared under an id of its own or by the mnemonic of a standard pin, never
both.

* `ModuleFile.check` — the module file that a mapping writes, with an issue for each field that is
  wrong;
* `ModuleFile.replay` — the declarations made on a descriptor, in the order properties, outputs,
  inputs; only a standard pin that does not exist can stop it.
-/

namespace ModulePins

/-- How a pin is named: by an id of its own, or by the mnemonic of a standard pin. -/
inductive PinName where
  | custom (id : String)
  | standard (mnemonic : String)
  deriving DecidableEq, Repr

/-- The declaration of a pin. Those of input pins have no properties. -/
structure PinDeclaration where
  name : PinName
  required : Option Bool
  properties : List Property
  deriving DecidableEq, Repr

/-- What goes into the descriptor. -/
structure DescriptorDeclaration where
  moduleId : Option String
  displayName : Option String
  description : Option String
  inheritsFrom : List String
  properties : List Property
  outputs : List PinDeclaration
  inputs : List PinDeclaration
  deriving DecidableEq, Repr

/-- A module file. -/
structure ModuleFile where
  group : Option String
  name : Option String
  version : Option String
  descriptor : Option DescriptorDeclaration
  deriving DecidableEq, Repr, Inhabited

namespace ModuleFile

open Schema

/-! ### Checks -/

/-- The declaration of a property. -/
def property : Value → Checked Property :=
  record "PropertyDecl" fun es =>
    Property.mk <$> requiredField ["key"] nonEmptyText es
      <*> field ["required"] truth true es
      <*> field ["sensitive"] truth false es
      <*> field ["defaultValue", "default_value"] text "" es
      <*> field ["description"] text "" es
      <*> field ["type"] text "string" es
      <*> field ["envVar", "env_var"] text "" es
      <* noOthers [["key"], ["required"], ["sensitive"], ["defaultValue", "default_value"],
        ["description"], ["type"], ["envVar", "env_var"]] es

/-- The names of the fields that all pin declarations have. -/
def pinFields : List (List String) := [["pin"], ["standardPin", "standard_pin"], ["required"]]

/-- The name of a pin, from its id and its mnemonic, of which one is given. -/
def pinName (id mnemonic : Option String) : Checked PinName :=
  match id, mnemonic with
  | some id, none => .pass (.custom id)
  | none, some m => .pass (.standard m)
  | _, _ => .refuse "Value error, exactly one of 'pin' or 'standardPin' must be set"

/-- The fields that all pin declarations have, checked before the name is. -/
def pinWith (properties : Checked (List Property)) (others : Checked Unit) (es : Members) :
    Checked PinDeclaration :=
  let fields : Checked (Option String × Option String × Option Bool × List Property) :=
    (fun id m r ps => (id, m, r, ps)) <$> field ["pin"] (orNull text) none es
      <*> field ["standardPin", "standard_pin"] (orNull text) none es
      <*> field ["required"] (orNull truth) none es
      <*> properties
      <* others
  fields.andThen fun (id, m, r, ps) => (pinName id m).map fun n => ⟨n, r, ps⟩

/-- The declaration of an output pin. -/
def outputPin : Value → Checked PinDeclaration :=
  record "OutputPinDecl" fun es =>
    pinWith (field ["properties"] (listOf property) [] es)
      (noOthers (pinFields ++ [["properties"]]) es) es

/-- The declaration of an input pin. -/
def inputPin : Value → Checked PinDeclaration :=
  record "InputPinDecl" fun es => pinWith (.pass []) (noOthers pinFields es) es

/-- The declarations that go into the descriptor. -/
def descriptorDeclaration : Value → Checked DescriptorDeclaration :=
  record "DescriptorDecl" fun es =>
    DescriptorDeclaration.mk <$> field ["moduleId", "module_id"] (orNull text) none es
      <*> field ["displayName", "display_name"] (orNull text) none es
      <*> field ["description"] (orNull text) none es
      <*> field ["inheritsFrom", "inherits_from"] (listOf text) [] es
      <*> field ["properties"] (listOf property) [] es
      <*> field ["output"] (listOf outputPin) [] es
      <*> field ["input"] (listOf inputPin) [] es
      <* noOthers [["moduleId", "module_id"], ["displayName", "display_name"], ["description"],
        ["inheritsFrom", "inherits_from"], ["properties"], ["output"], ["input"]] es

/-- What a module file is called in messages. -/
def subject : String := "ModuleFile"

/-- The module file that a mapping writes. -/
def check (es : Members) : Checked ModuleFile :=
  mk <$> field ["group"] (orNull text) none es
    <*> field ["name"] (orNull text) none es
    <*> field ["version"] (orNull text) none es
    <*> field ["waterDescriptor", "water_descriptor"] (orNull descriptorDeclaration) none es
    <* noOthers [["group"], ["name"], ["version"], ["waterDescriptor", "water_descriptor"]] es

/-- The module file that members write, or all their issues in one message. -/
def validate (es : Members) (path : Option String) : Except Fault ModuleFile :=
  match check es with
  | .pass m => .ok m
  | .fail issues => .error (.reading .moduleFile (Issue.report subject issues) path)

/-! ### Replay -/

/-- The edits that a pin declaration stands for. -/
def edits (p : PinDeclaration) : List PinEdit :=
  (p.required.map PinEdit.require).toList ++ p.properties.map PinEdit.property

/-- Declares an output pin. -/
def replayOutput (d : Descriptor) (p : PinDeclaration) : Except Fault Descriptor.Declared :=
  match p.name with
  | .custom id => .ok (d.declareOutput id (edits p))
  | .standard m => d.declareStandardOutput m (edits p)

/-- Declares an input pin. -/
def replayInput (d : Descriptor) (p : PinDeclaration) : Except Fault Descriptor.Declared :=
  match p.name with
  | .custom id => d.declareInput id (edits p)
  | .standard m => d.declareStandardInput m (edits p)

/-- The outcome of a replay: how far the descriptor got, the log, and the fault that stopped it. -/
structure Replayed where
  descriptor : Descriptor
  log : List Record
  fault : Option Fault

/-- Makes declarations one after the other, up to the first that fails. -/
def replayAll {α : Type} (declare : Descriptor → α → Except Fault Descriptor.Declared)
    (d : Descriptor) : List α → Replayed
  | [] => ⟨d, [], none⟩
  | a :: as =>
    match declare d a with
    | .error f => ⟨d, [], some f⟩
    | .ok (d', log) =>
      let r := replayAll declare d' as
      { r with log := log ++ r.log }

/-- Goes on with a replay unless it was stopped. -/
def Replayed.andThen (r : Replayed) (next : Descriptor → Replayed) : Replayed :=
  match r.fault with
  | some _ => r
  | none =>
    let s := next r.descriptor
    { s with log := r.log ++ s.log }

/-- The record of a replay that came to its end. -/
def replayedRecord (d : Descriptor) (decl : DescriptorDeclaration) : Record :=
  ⟨.debug, .moduleFile, Subsystem.config.say
    ((if d.name = "" then "<root>" else d.name) ++ ": moduleId=" ++
      Text.quotedOption decl.moduleId ++ ", " ++ toString decl.outputs.length ++ " outputs, " ++
      toString decl.inputs.length ++ " inputs, inheritsFrom=" ++
      Text.quotedList decl.inheritsFrom)⟩

/-- Makes the declarations of a module file on a descriptor. -/
def replay (decl : DescriptorDeclaration) (d : Descriptor) : Replayed :=
  let d := { d with
    moduleId := decl.moduleId, displayName := decl.displayName, description := decl.description }
  let r :=
    ((replayAll (fun d p => .ok (d.declareProperty p)) d decl.properties).andThen fun d =>
      replayAll replayOutput d decl.outputs).andThen fun d =>
        replayAll replayInput d decl.inputs
  match r.fault with
  | some _ => r
  | none => { r with log := r.log ++ [replayedRecord d decl] }

/-- The addresses that the module inherits from. -/
def references (m : ModuleFile) : List String :=
  match m.descriptor with
  | some d => d.inheritsFrom
  | none => []

end ModuleFile

end ModulePins
