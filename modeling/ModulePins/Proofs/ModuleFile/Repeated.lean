import ModulePins.Proofs.Inheritance.Leftovers
import ModulePins.Proofs.ModuleFile.Valid

/-!
# Declarations made once more

What a module file declares does not depend on the descriptor that it is declared on: pins are added
at the end, properties take the place of those with the same key, and the texts are replaced. So
declaring everything once more, on a descriptor that has been through it already, adds the same pins
once more and changes nothing else.

`ModuleFile.Worn` says of a descriptor that it has been through this any number of times, and has
collected references on the way.

## Main definitions

* `Descriptor.Bare` — nothing has been declared
* `ModuleFile.declare` — the declarations of a module file, if there is one
* `ModuleFile.Worn` — a descriptor on which they may have been made before

## Main results

* `ModuleFile.declare_holding` — declarations on a bare descriptor, or once more
* `ModuleFile.Worn.again`, `ModuleFile.Worn.repeats` — making the declarations once more
-/

namespace ModulePins

namespace Descriptor

/-- A descriptor on which nothing has been declared. -/
structure Bare (d : Descriptor) : Prop where
  outputs : d.outputs = []
  inputs : d.inputs = []
  properties : d.properties = []
  parents : d.parents = []

/-- The descriptor with other pins and references. -/
def holding (d : Descriptor) (outputs inputs : List Pin) (parents : List DescriptorId) : Descriptor :=
  { d with outputs, inputs, parents }

end Descriptor

namespace ModuleFile

open Descriptor

variable {o : Option ModuleFile} {b d : Descriptor} {ts is : List DescriptorId}

/-- The declarations of a module file, if there is one. -/
def declare (o : Option ModuleFile) (d : Descriptor) : Descriptor :=
  match o with
  | none => d
  | some file => (file.apply d).descriptor

theorem parents_declare (o : Option ModuleFile) (d : Descriptor) :
    (declare o d).parents = d.parents := by
  cases o with
  | none => rfl
  | some file => exact (apply_sameLinks file d).parents

/-- The module file, if there is one, can be declared. -/
def Declarable (o : Option ModuleFile) : Prop :=
  ∀ file ∈ o, file.Clean ∧ ∀ d, (file.apply d).fault = none

/-- Declarations on a bare descriptor, or once more: the pins go to the end, and the rest is what it
is on a bare descriptor. -/
theorem declare_holding (ho : Declarable o) (hb : Bare b) (outputs inputs : List Pin)
    (parents : List DescriptorId) :
    declare o (holding b outputs inputs parents) =
        holding (declare o b) (outputs ++ (declare o b).outputs) (inputs ++ (declare o b).inputs)
          parents ∧
      declare o (holding (declare o b) outputs inputs parents) =
        holding (declare o b) (outputs ++ (declare o b).outputs) (inputs ++ (declare o b).inputs)
          parents := by
  have hnothing : holding b outputs inputs parents =
      holding b (outputs ++ b.outputs) (inputs ++ b.inputs) parents := by
    rw [hb.outputs, hb.inputs, List.append_nil, List.append_nil]
  cases o with
  | none => exact ⟨hnothing, hnothing⟩
  | some file =>
    obtain ⟨hclean, hfault⟩ := ho file rfl
    simp only [declare, apply]
    cases hdecl : file.descriptor with
    | none => exact ⟨hnothing, hnothing⟩
    | some decl =>
      have hknown := hfault b
      rw [apply, hdecl] at hknown
      dsimp only at hknown
      rw [fault_replay (hclean decl hdecl)] at hknown
      obtain ⟨added, added', -, -, hadded⟩ := exists_replay_eq (hclean decl hdecl) hknown
      simp only [hadded, holding, titled, hb.outputs, hb.inputs, hb.properties, List.nil_append]
      refine ⟨trivial, ?_⟩
      congr 1
      exact Keyed.putAll_collapse_self decl.properties

/-- A descriptor that is bare, or on which the declarations have been made before; it may have been
linked before to some of what it refers to. -/
structure Worn (o : Option ModuleFile) (ts : List DescriptorId) (b d : Descriptor) : Prop where
  again : ∀ outputs inputs parents, declare o (holding d outputs inputs parents) =
    holding (declare o b) (outputs ++ (declare o b).outputs) (inputs ++ (declare o b).inputs) parents
  outputs : Leftovers (declare o b).outputs d.outputs
  inputs : Leftovers (declare o b).inputs d.inputs
  parents : Leftovers ts d.parents

/-- What is bare has been through nothing. -/
theorem Worn.of_bare (ho : Declarable o) (hb : Bare b) (ts : List DescriptorId) : Worn o ts b b where
  again outputs inputs parents := (declare_holding ho hb outputs inputs parents).1
  outputs := hb.outputs ▸ .none
  inputs := hb.inputs ▸ .none
  parents := hb.parents ▸ .none

theorem Worn.declare_eq (h : Worn o ts b d) : declare o d =
    holding (declare o b) (d.outputs ++ (declare o b).outputs) (d.inputs ++ (declare o b).inputs)
      d.parents :=
  h.again d.outputs d.inputs d.parents

/-- **Declaring once more, and linking to some of the modules,** leaves a descriptor as worn. -/
theorem Worn.next (h : Worn o ts b d) (ho : Declarable o) (hb : Bare b) (his : is <+: ts) :
    Worn o ts b { declare o d with parents := (declare o d).parents ++ is } := by
  rw [h.declare_eq]
  refine ⟨fun outputs inputs parents => ?_, h.outputs.behind (List.prefix_refl _),
    h.inputs.behind (List.prefix_refl _), h.parents.behind his⟩
  exact (declare_holding ho hb outputs inputs parents).2

/-- **Declaring once more, and linking to all of the modules,** repeats what was declared and linked
on a bare descriptor. -/
theorem Worn.repeats (h : Worn o ts b d) (hb : Bare b) :
    Repeats { declare o b with parents := (declare o b).parents ++ ts }
      { declare o d with parents := (declare o d).parents ++ ts } := by
  rw [parents_declare o b, hb.parents, List.nil_append, h.declare_eq]
  exact ⟨rfl, rfl, rfl, rfl, rfl, ⟨_, h.outputs, rfl⟩, ⟨_, h.inputs, rfl⟩, ⟨_, h.parents, rfl⟩⟩

end ModuleFile

end ModulePins
