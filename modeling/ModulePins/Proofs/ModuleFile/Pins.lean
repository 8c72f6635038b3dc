import ModulePins.Proofs.ModuleFile.Replay
import ModulePins.Proofs.Pin.Declaring

/-!
# Declarations of pins

What the pins of a module file come to when its declarations are made. A declaration starts from the
pin that it names: one of the catalog, or one with an id of its own. It then says what is different,
and the result is added to the descriptor, whatever has been declared on that before. The one thing
that can go wrong is a mnemonic that is not in the catalog, and the first of those stops the replay.

Input pins take no properties; the schema of module files has no field for them.

## Main definitions

* `PinName.pin` — the pin that a name stands for
* `PinDeclaration.output`, `PinDeclaration.input` — what a declaration makes of it
* `ModuleFile.unknown?` — what is said of the first mnemonic that is not in the catalog

## Main results

* `ModuleFile.fault_replayAll`, `ModuleFile.exists_pins` — declarations of pins in a row
* `ModuleFile.fault_replay`, `ModuleFile.exists_replay_eq` — all declarations of a module file
-/

namespace ModulePins

open Keyed
open List (Forall₂)

/-- The pin that a name stands for: that of the catalog, or one with an id of its own and without
properties, required or not as given. -/
def PinName.pin (required : Bool) : PinName → Except Fault Pin
  | custom id => .ok ⟨id, required, []⟩
  | standard mnemonic => Catalog.require mnemonic

namespace PinDeclaration

/-- The output pin that is declared on top of another one. -/
def output (p : PinDeclaration) (base : Pin) : Pin where
  id := base.id
  required := p.required.getD base.required
  properties := putAll Property.key base.properties p.properties

/-- The input pin that is declared on top of another one. -/
def input (p : PinDeclaration) (base : Pin) : Pin where
  id := base.id
  required := p.required.getD base.required
  properties := []

end PinDeclaration

namespace ModuleFile

open Descriptor

variable {declare : Descriptor → PinDeclaration → Except Fault Declared} {required : Bool}
  {finish : PinDeclaration → Pin → Pin} {add : Descriptor → Pin → Descriptor}
  {p : PinDeclaration} {ps qs : List PinDeclaration} {d : Descriptor} {decl : DescriptorDeclaration}

/-! ### Edits -/

theorem editAll_properties (base : Pin) (qs : List Property) :
    (base.editAll (qs.map PinEdit.property)).1 =
      { base with properties := putAll Property.key base.properties qs } := by
  induction qs using List.reverseRecOn with
  | nil => rfl
  | append_singleton qs q ih =>
    rw [List.map_append, List.map_singleton, Pin.editAll_concat, ih, putAll_concat]
    rfl

/-- The edits of a declaration, made on an output pin. -/
theorem editAll_edits (p : PinDeclaration) (base : Pin) :
    (base.editAll (edits p)).1 = p.output base := by
  rw [edits, PinDeclaration.output]
  cases p.required with
  | none => exact editAll_properties base p.properties
  | some b => exact editAll_properties { base with required := b } p.properties

/-- The edits of a declaration, made on an input pin. -/
theorem editInput_edits (hp : p.properties = []) {base : Pin} (hbase : base.properties = []) :
    (edits p).foldlM Pin.editInput base = .ok (p.input base) := by
  obtain ⟨id, required, properties⟩ := base
  obtain rfl : properties = [] := hbase
  rw [edits, hp, PinDeclaration.input]
  cases p.required <;> rfl

/-! ### One pin -/

/-- The declaration adds a pin, made from the one that it names. -/
def Declares (declare : Descriptor → PinDeclaration → Except Fault Declared) (required : Bool)
    (finish : PinDeclaration → Pin → Pin) (add : Descriptor → Pin → Descriptor)
    (p : PinDeclaration) : Prop :=
  ∀ d, ∃ log : Pin → List Record,
    declare d p = (p.name.pin required).map fun base => (add d (finish p base), log base)

/-- The descriptor with one more output pin. -/
def addOutput (d : Descriptor) (pin : Pin) : Descriptor := { d with outputs := d.outputs ++ [pin] }

/-- The descriptor with one more input pin. -/
def addInput (d : Descriptor) (pin : Pin) : Descriptor := { d with inputs := d.inputs ++ [pin] }

theorem declares_output (p : PinDeclaration) :
    Declares replayOutput false PinDeclaration.output addOutput p := by
  intro d
  rw [replayOutput]
  cases p.name with
  | custom id =>
    refine ⟨fun _ => _, congrArg Except.ok (Prod.ext ?_ rfl)⟩
    change addOutput d ((Pin.mk id false []).editAll (edits p)).1 = _
    rw [editAll_edits]
  | standard mnemonic =>
    dsimp only [PinName.pin]
    rw [declareStandardOutput]
    cases Catalog.require mnemonic with
    | error f => exact ⟨fun _ => [], rfl⟩
    | ok base =>
      refine ⟨fun _ => _, congrArg Except.ok (Prod.ext ?_ rfl)⟩
      change addOutput d (base.editAll (edits p)).1 = _
      rw [editAll_edits]

theorem declares_input (hp : p.properties = []) :
    Declares replayInput true PinDeclaration.input addInput p := by
  intro d
  rw [replayInput]
  cases p.name with
  | custom id =>
    dsimp only
    rw [declareInput, editInput_edits hp rfl]
    exact ⟨fun _ => _, rfl⟩
  | standard mnemonic =>
    dsimp only [PinName.pin]
    rw [declareStandardInput]
    cases Catalog.require mnemonic with
    | error f => exact ⟨fun _ => [], rfl⟩
    | ok base =>
      simp only [bind, Except.bind]
      rw [editInput_edits hp rfl]
      exact ⟨fun _ => _, rfl⟩

/-! ### Pins in a row -/

/-- The standard pins that declarations name. -/
def standards (ps : List PinDeclaration) : List String :=
  ps.filterMap fun p =>
    match p.name with
    | .standard mnemonic => some mnemonic
    | .custom _ => none

/-- What is said of the first mnemonic that is not in the catalog. -/
def unknown? (mnemonics : List String) : Option Fault :=
  (mnemonics.find? fun mnemonic => (Catalog.lookup? mnemonic).isNone).map
    fun mnemonic => .unknownStandardPin mnemonic Catalog.available

theorem unknown?_eq_none_iff {mnemonics : List String} :
    unknown? mnemonics = none ↔ ∀ mnemonic ∈ mnemonics, (Catalog.lookup? mnemonic).isSome := by
  simp [unknown?, Option.isSome_iff_ne_none]

theorem unknown?_standards_append (ps qs : List PinDeclaration) :
    unknown? (standards (ps ++ qs)) = (unknown? (standards ps)).or (unknown? (standards qs)) := by
  rw [standards, List.filterMap_append, unknown?, List.find?_append, Option.map_or]
  rfl

/-- The first declaration fails, or it is one of the others that does. -/
theorem unknown?_standards_cons (required : Bool) (p : PinDeclaration) (ps : List PinDeclaration) :
    unknown? (standards (p :: ps)) =
      match p.name.pin required with
      | .error f => some f
      | .ok _ => unknown? (standards ps) := by
  rw [standards, List.filterMap_cons]
  cases p.name with
  | custom id => rfl
  | standard mnemonic =>
    dsimp only
    rw [PinName.pin, Catalog.require, unknown?, List.find?_cons]
    cases Catalog.lookup? mnemonic <;> rfl

/-- **The fault of declarations in a row** is about the first mnemonic that is not in the catalog. -/
theorem fault_replayAll (h : ∀ p ∈ ps, Declares declare required finish add p) (d : Descriptor) :
    (replayAll declare d ps).fault = unknown? (standards ps) := by
  induction ps generalizing d with
  | nil => rfl
  | cons p ps ih =>
    obtain ⟨hp, hps⟩ := List.forall_mem_cons.mp h
    obtain ⟨log, hlog⟩ := hp d
    rw [unknown?_standards_cons required, replayAll, hlog]
    cases p.name.pin required with
    | error f => rfl
    | ok base => exact ih hps _

/-- **The pins of declarations in a row**: one for each declaration, the same on all descriptors. -/
theorem exists_pins (h : ∀ p ∈ ps, Declares declare required finish add p)
    (hknown : unknown? (standards ps) = none) :
    ∃ pins, Forall₂ (fun p pin => ∃ base, p.name.pin required = .ok base ∧ pin = finish p base)
        ps pins ∧
      ∀ d, (replayAll declare d ps).descriptor = pins.foldl add d := by
  induction ps with
  | nil => exact ⟨[], .nil, fun d => rfl⟩
  | cons p ps ih =>
    obtain ⟨hp, hps⟩ := List.forall_mem_cons.mp h
    rw [unknown?_standards_cons required] at hknown
    cases hbase : p.name.pin required with
    | error f =>
      rw [hbase] at hknown
      cases hknown
    | ok base =>
      rw [hbase] at hknown
      obtain ⟨pins, hpins, hdescriptor⟩ := ih hps hknown
      refine ⟨finish p base :: pins, .cons ⟨base, hbase, rfl⟩ hpins, fun d => ?_⟩
      obtain ⟨log, hlog⟩ := hp d
      rw [replayAll, hlog, hbase]
      exact hdescriptor _

theorem foldl_addOutput (pins : List Pin) (d : Descriptor) :
    pins.foldl addOutput d = { d with outputs := d.outputs ++ pins } := by
  induction pins generalizing d with
  | nil => simp
  | cons pin pins ih => simp [ih, addOutput]

theorem foldl_addInput (pins : List Pin) (d : Descriptor) :
    pins.foldl addInput d = { d with inputs := d.inputs ++ pins } := by
  induction pins generalizing d with
  | nil => simp
  | cons pin pins ih => simp [ih, addInput]

/-! ### All declarations -/

/-- The properties of the module itself can always be declared. -/
theorem replayAll_properties (ps : List Property) (d : Descriptor) :
    (replayAll (fun d p => .ok (d.declareProperty p)) d ps).fault = none ∧
      (replayAll (fun d p => .ok (d.declareProperty p)) d ps).descriptor = d.declareEach ps := by
  induction ps generalizing d with
  | nil => exact ⟨rfl, rfl⟩
  | cons p ps ih => exact ih (d.declareProperty p).1

theorem fault_andThen (r : Replayed) (next : Descriptor → Replayed) :
    (r.andThen next).fault = r.fault.or (next r.descriptor).fault := by
  rw [Replayed.andThen]
  cases hr : r.fault with
  | some f => exact hr
  | none => rfl

theorem descriptor_andThen {r : Replayed} {next : Descriptor → Replayed} (hr : r.fault = none) :
    (r.andThen next).descriptor = (next r.descriptor).descriptor := by
  rw [Replayed.andThen, hr]

/-- **The fault of a replay** is about the first mnemonic that is not in the catalog, among those of
the outputs and then those of the inputs. -/
theorem fault_replay (hclean : ∀ p ∈ decl.inputs, p.properties = []) (d : Descriptor) :
    (replay decl d).fault = unknown? (standards (decl.outputs ++ decl.inputs)) := by
  have hall : (replay decl d).fault = (declareAll decl (titled decl d)).fault := by
    rw [replay_eq]
    dsimp only
    split <;> rfl
  rw [hall, declareAll, fault_andThen, fault_andThen, (replayAll_properties _ _).1, Option.none_or,
    fault_replayAll fun p _ => declares_output p,
    fault_replayAll fun p hp => declares_input (hclean p hp), unknown?_standards_append]

/-- **What a replay comes to.** The texts are replaced, the properties are written over those that
are there, and pins are added, one for each declaration and the same on all descriptors. -/
theorem exists_replay_eq (hclean : ∀ p ∈ decl.inputs, p.properties = [])
    (hknown : unknown? (standards (decl.outputs ++ decl.inputs)) = none) :
    ∃ outputs inputs,
      Forall₂ (fun p pin => ∃ base, p.name.pin false = .ok base ∧ pin = p.output base) decl.outputs
        outputs ∧
      Forall₂ (fun p pin => ∃ base, p.name.pin true = .ok base ∧ pin = p.input base) decl.inputs
        inputs ∧
      ∀ d, (replay decl d).descriptor =
        { titled decl d with
          properties := putAll Property.key d.properties decl.properties
          outputs := d.outputs ++ outputs
          inputs := d.inputs ++ inputs } := by
  rw [unknown?_standards_append, Option.or_eq_none_iff] at hknown
  obtain ⟨outputs, hmeans, houtputs⟩ := exists_pins (fun p _ => declares_output p) hknown.1
  obtain ⟨inputs, hmeans', hinputs⟩ :=
    exists_pins (fun p hp => declares_input (hclean p hp)) hknown.2
  refine ⟨outputs, inputs, hmeans, hmeans', fun d => ?_⟩
  have hall : (replay decl d).descriptor = (declareAll decl (titled decl d)).descriptor := by
    rw [replay_eq]
    dsimp only
    split <;> rfl
  obtain ⟨hfault, hproperties⟩ := replayAll_properties decl.properties (titled decl d)
  have hfault' : ((replayAll (fun d p => .ok (d.declareProperty p)) (titled decl d)
      decl.properties).andThen fun d => replayAll replayOutput d decl.outputs).fault = none := by
    rw [fault_andThen, hfault, fault_replayAll fun p _ => declares_output p, hknown.1]
    rfl
  rw [hall, declareAll, descriptor_andThen hfault', descriptor_andThen hfault, hinputs, houtputs,
    hproperties, Descriptor.declareEach_eq, foldl_addOutput, foldl_addInput]
  rfl

end ModuleFile

end ModulePins
