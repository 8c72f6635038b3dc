import Mathlib
import ModulePins.Proofs.ModuleFile.Valid

/-!
# What a module file says

The meaning of the declarations of a module file, pin by pin. They are made on a descriptor on which
nothing has been declared, and what is left of them there can be read off the file: one pin for each
entry and in the order of the file, and the properties of the module.

An entry that names a standard pin starts from the one in the catalog, properties included; any other
starts from a pin without properties, which is required if it is an input. What the entry says itself
comes on top. An input pin has no properties whatever it names, since only resolution gives it some.

## Main definitions

* `PinDeclaration.MeansOutput`, `PinDeclaration.MeansInput` — the pin that an entry means

## Main results

* `ModuleFile.apply_means` — what is declared, and the one way in which this can fail
-/

namespace ModulePins

open Keyed
open List (Forall₂)

/-- No pin that a declaration can start from names a property twice. -/
theorem PinName.nodup_pin {n : PinName} {required : Bool} {base : Pin}
    (h : n.pin required = .ok base) : (base.properties.map Property.key).Nodup := by
  cases n with
  | custom id =>
    cases h
    exact List.nodup_nil
  | standard mnemonic =>
    rw [pin, Catalog.require] at h
    cases hlookup : Catalog.lookup? mnemonic with
    | none =>
      rw [hlookup] at h
      cases h
    | some p =>
      rw [hlookup] at h
      cases h
      exact Catalog.nodup_keys hlookup

namespace PinDeclaration

variable {p : PinDeclaration} {base pin : Pin}

/-- The output pin that an entry means if it names the pin `base`: the properties of the entry are
declared behind those of `base`. -/
structure MeansOutput (p : PinDeclaration) (base pin : Pin) : Prop where
  id : pin.id = base.id
  required : pin.required = p.required.getD base.required
  properties : Settled Property.key (base.properties ++ p.properties) pin.properties

/-- The input pin that an entry means if it names the pin `base`. -/
structure MeansInput (p : PinDeclaration) (base pin : Pin) : Prop where
  id : pin.id = base.id
  required : pin.required = p.required.getD base.required
  properties : pin.properties = []

theorem meansOutput_output (hbase : (base.properties.map Property.key).Nodup) :
    p.MeansOutput base (p.output base) :=
  ⟨rfl, rfl, settled_putAll hbase p.properties⟩

theorem meansInput_input (p : PinDeclaration) (base : Pin) : p.MeansInput base (p.input base) :=
  ⟨rfl, rfl, rfl⟩

end PinDeclaration

namespace ModuleFile

variable {m : ModuleFile} {decl : DescriptorDeclaration} {v : Value}

/-- **What a module file says.** Let `decl` be what a module file writes about its descriptor, as it
has passed its check. Making the declarations fails exactly if they name a standard pin that is not
in the catalog; the fault is about the first one, outputs before inputs, and there is no other. If
they can be made, a descriptor on which nothing has been declared keeps its name and gets the texts,
one output pin for each output entry, one input pin for each input entry, in the order of the file,
and the properties of the module, where a later one replaces an earlier one with the same key. The
references are handed on as they are written. -/
theorem apply_means (h : descriptorDeclaration v = .pass decl) (hm : m.descriptor = some decl)
    (name : String) :
    (m.apply { name }).fault = unknown? (standards (decl.outputs ++ decl.inputs)) ∧
    ((m.apply { name }).fault = none → ∃ outputs inputs properties,
      (m.apply { name }).descriptor =
        { name
          moduleId := decl.moduleId
          displayName := decl.displayName
          description := decl.description
          outputs
          inputs
          properties } ∧
      Forall₂ (fun p pin => ∃ base, p.name.pin false = .ok base ∧ p.MeansOutput base pin)
        decl.outputs outputs ∧
      Forall₂ (fun p pin => ∃ base, p.name.pin true = .ok base ∧ p.MeansInput base pin)
        decl.inputs inputs ∧
      Settled Property.key decl.properties properties) ∧
    m.references = decl.inheritsFrom := by
  have hclean := properties_of_descriptorDeclaration h
  have happly (d : Descriptor) : m.apply d = replay decl d := by rw [apply, hm]
  have hreferences : m.references = decl.inheritsFrom := by rw [references, hm]
  have hproperties : Settled Property.key ([] ++ decl.properties)
      (putAll Property.key [] decl.properties) := settled_putAll (by simp) _
  rw [happly, fault_replay hclean]
  refine ⟨rfl, fun hknown => ?_, hreferences⟩
  obtain ⟨outputs, inputs, houtputs, hinputs, hreplay⟩ := exists_replay_eq hclean hknown
  refine ⟨outputs, inputs, putAll Property.key [] decl.properties, (hreplay { name }).trans ?_,
    houtputs.imp ?_, hinputs.imp ?_, hproperties⟩
  · simp [titled]
  · rintro p pin ⟨base, hbase, rfl⟩
    exact ⟨base, hbase, PinDeclaration.meansOutput_output (PinName.nodup_pin hbase)⟩
  · rintro p pin ⟨base, hbase, rfl⟩
    exact ⟨base, hbase, PinDeclaration.meansInput_input p base⟩

/-- What a module file writes about its descriptor: an output pin of the catalog with a property of
its own and one in another one's place, and two input pins. -/
def storeText : Value :=
  .mapping
    [(.str "moduleId", .str "it.store"),
      (.str "inheritsFrom", .list [.str ":base"]),
      (.str "output", .list [.mapping
        [(.str "standardPin", .str "jdbc"),
          (.str "required", .bool false),
          (.str "properties", .list
            [.mapping [(.str "key", .str "db.port"), (.str "defaultValue", .str "6543")],
              .mapping [(.str "key", .str "db.schema")]])]]),
      (.str "input", .list
        [.mapping [(.str "pin", .str "it.other")],
          .mapping [(.str "standardPin", .str "api-gateway")]])]

/-- The same as a declaration. -/
def store : DescriptorDeclaration where
  moduleId := some "it.store"
  displayName := none
  description := none
  inheritsFrom := [":base"]
  properties := []
  outputs :=
    [⟨.standard "jdbc", some false,
      [{ key := "db.port", defaultValue := "6543" }, { key := "db.schema" }]⟩]
  inputs := [⟨.custom "it.other", none, []⟩, ⟨.standard "api-gateway", none, []⟩]

theorem apply_means_store : descriptorDeclaration storeText = .pass store ∧
    ((⟨none, none, none, some store⟩ : ModuleFile).apply { name := ":store" }).fault = none ∧
    ∃ jdbc other gateway,
      ((⟨none, none, none, some store⟩ : ModuleFile).apply { name := ":store" }).descriptor =
        { name := ":store", moduleId := some "it.store", outputs := [jdbc],
          inputs := [other, gateway] } ∧
      jdbc.id = "it.water.persistence.jdbc" ∧ jdbc.required = false ∧
      jdbc.properties.map Property.key =
        ["db.host", "db.port", "db.username", "db.password", "db.pool.size", "db.schema"] ∧
      other.required = true ∧ gateway.required = false := by
  have hpass : descriptorDeclaration storeText = .pass store := by cbv
  have hfile : (⟨none, none, none, some store⟩ : ModuleFile).descriptor = some store := rfl
  obtain ⟨hfault, hmeans, -⟩ := apply_means hpass hfile ":store"
  have hknown : unknown? (standards (store.outputs ++ store.inputs)) = none := by decide
  have hnone := hfault.trans hknown
  obtain ⟨outputs, inputs, properties, hdescriptor, houtputs, hinputs, hproperties⟩ := hmeans hnone
  obtain ⟨jdbc, _, ⟨_, ⟨⟩, hjdbc⟩, ⟨⟩, rfl⟩ := List.forall₂_cons_left_iff.mp houtputs
  obtain ⟨other, _, ⟨_, ⟨⟩, hother⟩, hrest, rfl⟩ := List.forall₂_cons_left_iff.mp hinputs
  obtain ⟨gateway, _, ⟨_, ⟨⟩, hgateway⟩, ⟨⟩, rfl⟩ := List.forall₂_cons_left_iff.mp hrest
  have hkeys : jdbc.properties.map Property.key =
      ["db.host", "db.port", "db.username", "db.password", "db.pool.size", "db.schema"] := by
    rw [hjdbc.properties.keys]
    decide
  obtain rfl : properties = [] := List.map_eq_nil_iff.mp hproperties.keys
  exact ⟨hpass, hnone, jdbc, other, gateway, hdescriptor, hjdbc.id, hjdbc.required, hkeys,
    hother.required, hgateway.required⟩

end ModuleFile

end ModulePins
