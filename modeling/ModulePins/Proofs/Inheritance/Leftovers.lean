import Mathlib.Logic.Function.Basic
import ModulePins.Proofs.Inheritance.Resolution

/-!
# Declarations behind what is left of earlier ones

A module that is set up in several attempts collects its declarations more than once: what an attempt
came to stays, and the next one declares everything again behind it. What an attempt leaves of a list
is a beginning of the list, so in the end the whole list stands behind some of its beginnings.

Resolution cannot tell this from the list itself. A pin has its place from the first time it is
declared and its contents from the last time, and both are the same; a depth-first search that has
come through the beginnings without closing a cycle finds nothing new there the second time. This
goes through any number of levels, since what is inherited from a list of modules with its beginnings
in front is what is inherited from the list, with beginnings in front.

## Main definitions

* `Leftovers` — beginnings of a list, one behind the other
* `Descriptor.Repeats`, `Registry.Repeats` — the same declarations, behind what is left of them

## Main results

* `Registry.Repeats.outcome_resolve` — resolution gives the same answer
-/

namespace ModulePins

/-! ### Beginnings of a list -/

/-- Beginnings of a list, one behind the other. -/
inductive Leftovers {α : Type} (xs : List α) : List α → Prop
  | none : Leftovers xs []
  | behind {ys pre : List α} (before : Leftovers xs ys) (hpre : pre <+: xs) :
      Leftovers xs (ys ++ pre)

namespace Leftovers

variable {α β : Type} {xs ys : List α}

theorem subset (h : Leftovers xs ys) : ys ⊆ xs := by
  induction h with
  | none => exact List.nil_subset xs
  | behind _ hpre ih => exact List.append_subset.mpr ⟨ih, hpre.subset⟩

/-- What is made of each element of the beginnings makes beginnings again. -/
theorem flatMap (h : Leftovers xs ys) (f : α → List β) :
    Leftovers (xs.flatMap f) (ys.flatMap f) := by
  induction h with
  | none => exact .none
  | behind _ hpre ih =>
    rw [List.flatMap_append]
    refine ih.behind ?_
    obtain ⟨rest, rfl⟩ := hpre
    exact ⟨rest.flatMap f, List.flatMap_append.symm⟩

/-- Looking through the beginnings first finds the same. -/
theorem findSome?_append (h : Leftovers xs ys) (f : α → Option β) :
    (ys ++ xs).findSome? f = xs.findSome? f := by
  induction h with
  | none => rfl
  | @behind ys pre _ hpre ih =>
    obtain ⟨rest, rfl⟩ := hpre
    have hbehind (zs : List α) : (pre ++ zs).findSome? f = (pre.findSome? f).or (zs.findSome? f) :=
      List.findSome?_append
    rw [List.findSome?_append] at ih
    rw [List.append_assoc, List.findSome?_append, hbehind, ← ih, hbehind]
    cases ys.findSome? f <;> cases pre.findSome? f <;> rfl

/-- Writing the beginnings first leaves the same. -/
theorem collapse_append {κ : Type} [DecidableEq κ] {key : α → κ} (h : Leftovers xs ys) :
    Keyed.collapse key (ys ++ xs) = Keyed.collapse key xs := by
  induction h with
  | none => rfl
  | @behind ys pre _ hpre ih =>
    rw [List.append_assoc, ← ih]
    exact Keyed.collapse_append_congr rfl (Keyed.collapse_prefix_append hpre)

end Leftovers

/-- The list behind beginnings of it. -/
def Repeated {α : Type} (xs zs : List α) : Prop := ∃ ys, Leftovers xs ys ∧ zs = ys ++ xs

theorem Repeated.mem_iff {α : Type} {xs zs : List α} (h : Repeated xs zs) (x : α) :
    x ∈ zs ↔ x ∈ xs := by
  obtain ⟨ys, hys, rfl⟩ := h
  rw [List.mem_append]
  exact ⟨fun hx => hx.elim (hys.subset ·) id, .inr⟩

/-! ### Descriptors and registries -/

/-- The same declarations, with pins and references behind what is left of earlier attempts. -/
structure Descriptor.Repeats (d d' : Descriptor) : Prop where
  name : d'.name = d.name
  moduleId : d'.moduleId = d.moduleId
  displayName : d'.displayName = d.displayName
  description : d'.description = d.description
  properties : d'.properties = d.properties
  outputs : Repeated d.outputs d'.outputs
  inputs : Repeated d.inputs d'.inputs
  parents : Repeated d.parents d'.parents

/-- Each module has the same declarations, behind what is left of earlier attempts. -/
structure Registry.Repeats (r r' : Registry) : Prop where
  length : r'.length = r.length
  get : ∀ i, Descriptor.Repeats (r.get i) (r'.get i)

namespace Registry

open Resolver

variable {r r' : Registry} {path : List DescriptorId} {i : DescriptorId}

theorem Repeats.label (h : Repeats r r') : r'.label = r.label := by
  funext i
  rw [Registry.label, Registry.label, (h.get i).name, (h.get i).moduleId]

theorem Repeats.refers (h : Repeats r r') : r'.Refers = r.Refers := by
  funext i j
  exact propext ((h.get i).parents.mem_iff j)

theorem Repeats.cycleFree_iff (h : Repeats r r') : r'.CycleFree i ↔ r.CycleFree i := by
  rw [CycleFree, CycleFree, Reaches, Reaches, h.refers]
  simp only [OnCycle, h.refers]

/-! ### Pins -/

/-- The flat declarations as a function of all numbers. -/
theorem exists_flat (own : Descriptor → List Pin) (r : Registry) :
    ∃ f : DescriptorId → List Pin, (∀ i : r.Acyclic, f i.val = flat own i) ∧
      ∀ i, r.CycleFree i → f i = (r.get i).parents.flatMap f ++ own (r.get i) := by
  have hval := Subtype.val_injective.extend_apply (flat own (r := r)) fun _ => []
  refine ⟨Function.extend Subtype.val (flat own (r := r)) fun _ => [], hval, fun i hi => ?_⟩
  rw [hval ⟨i, hi⟩, flat_eq, ← Acyclic.map_val_parents ⟨i, hi⟩, List.flatMap_map]
  simp only [hval]

/-- The flat declarations collapse to the same. The induction follows the references. -/
theorem Repeats.collapse_flat (h : Repeats r r') {own : Descriptor → List Pin}
    (hown : ∀ i, Repeated (own (r.get i)) (own (r'.get i))) (hi : r.CycleFree i) :
    Keyed.collapse Pin.id (flat own ⟨i, h.cycleFree_iff.mpr hi⟩) =
      Keyed.collapse Pin.id (flat own ⟨i, hi⟩) := by
  obtain ⟨f, hf, hstep⟩ := exists_flat own r
  obtain ⟨f', hf', hstep'⟩ := exists_flat own r'
  rw [← hf ⟨i, hi⟩, ← hf' ⟨i, h.cycleFree_iff.mpr hi⟩]
  have hacc := acc_of_cycleFree hi
  induction hacc with
  | intro i _ ih =>
    obtain ⟨before, hbefore, hparents⟩ := (h.get i).parents
    obtain ⟨before', hbefore', hpins⟩ := hown i
    have hinherited : Keyed.collapse Pin.id ((r'.get i).parents.flatMap f') =
        Keyed.collapse Pin.id ((r.get i).parents.flatMap f) := by
      calc Keyed.collapse Pin.id ((r'.get i).parents.flatMap f')
          = Keyed.collapse Pin.id ((r'.get i).parents.flatMap f) :=
            Keyed.collapse_flatMap_congr fun p hp =>
              have hip : r.Refers i p := ((h.get i).parents.mem_iff p).mp hp
              ih p hip (hi.of_refers hip)
        _ = Keyed.collapse Pin.id (before.flatMap f ++ (r.get i).parents.flatMap f) := by
            rw [hparents, List.flatMap_append]
        _ = _ := (hbefore.flatMap f).collapse_append
    rw [hstep i hi, hstep' i (h.cycleFree_iff.mpr hi)]
    refine Keyed.collapse_append_congr hinherited ?_
    rw [hpins]
    exact hbefore'.collapse_append

theorem Repeats.pins (h : Repeats r r') (hi : r.CycleFree i) :
    Resolver.pins ⟨i, h.cycleFree_iff.mpr hi⟩ = Resolver.pins ⟨i, hi⟩ := by
  rw [Resolver.pins, Resolver.pins, h.collapse_flat (fun i => (h.get i).outputs) hi,
    h.collapse_flat (fun i => (h.get i).inputs) hi]

/-! ### Cycles -/

/-- A depth-first search closes the same cycle first. -/
theorem Repeats.firstCycle (h : Repeats r r') (path : List DescriptorId) (i : DescriptorId) :
    firstCycle r' path i = firstCycle r path i := by
  induction path, i using firstCycle.induct r with
  | case1 path i hi hfresh _ ih =>
    obtain ⟨before, hbefore, hparents⟩ := (h.get i).parents
    rw [firstCycle_of_fresh hi hfresh, firstCycle_of_fresh (h.length ▸ hi) hfresh,
      ← hbefore.findSome?_append, ← hparents, ← List.head?_filterMap, ← List.head?_filterMap,
      List.filterMap_congr fun p _ => ih p]
  | case2 path i hi hmem =>
    have hmem : path.contains i = true := by simpa using hmem
    rw [firstCycle_of_mem hi hmem, firstCycle_of_mem (h.length ▸ hi) hmem]
  | case3 path i hi =>
    have hbeyond : r.length ≤ i := Nat.le_of_not_lt hi
    rw [firstCycle_of_length_le hbeyond, firstCycle_of_length_le (h.length ▸ hbeyond)]

/-! ### Answers -/

theorem Repeats.answers {a : Except (List String) Effective} (h : Repeats r r')
    (ha : Answers r path i a) : Answers r' path i a := by
  cases a with
  | ok e =>
    obtain ⟨hi, rfl⟩ := ha
    exact ⟨h.cycleFree_iff.mpr hi, (h.pins hi).symm⟩
  | error labels =>
    obtain ⟨cycle, hcycle, rfl⟩ := ha
    exact ⟨cycle, (h.firstCycle path i).trans hcycle, by rw [h.label]⟩

/-- **Resolution gives the same answer.** -/
theorem Repeats.outcome_resolve (h : Repeats r r') (i : DescriptorId) :
    (resolve r' [] i).outcome = (resolve r [] i).outcome := by
  have hanswer := (visit_spec r [] [] i (Memo.sound_nil r) (trail_nil r i)).1
  have hanswer' := (visit_spec r' [] [] i (Memo.sound_nil r') (trail_nil r' i)).1
  rw [Resolver.outcome_resolve, Resolver.outcome_resolve,
    (h.answers hanswer).unique (trail_nil r' i) hanswer']

end Registry

end ModulePins
