import Mathlib.Data.List.Chain
import Mathlib.Logic.Relation
import ModulePins.Descriptor.Inheritance

/-!
# The graph of references

The references of a registry as a relation, and the modules from which no cycle can be reached.
Nothing here mentions resolution: these are the notions that its results are compared with.

A reference to a number that is not registered leads to a module that declares nothing and refers
to nothing (`Registry.get` is total), so no statement needs the registry to be closed under
references.

`Registry.Acyclic r` carries the absence of cycles in the type. References of an acyclic module are
acyclic again, and following them is well-founded, so a recursion over everything that such a
module inherits needs no path, no bound and no memo. `Registry.flat` is that recursion.

## Main definitions

* `Registry.Refers`, `Registry.Reaches`, `Registry.OnCycle` — one reference, several, and round
* `Registry.CycleFree`, `Registry.Acyclic` — no cycle can be reached
* `Registry.flat` — all declarations that a module inherits, and then its own
* `Registry.IsCycle` — a list of modules that goes round once

## Main results

* `Registry.cycleFree_iff` — a module is free of cycles when those it refers to are
* `Registry.acc_of_cycleFree` — references of a module free of cycles come to an end
* `Registry.not_cycleFree_of_isCycle` — a cycle that can be reached is in the way
-/

namespace ModulePins

namespace Registry

variable {r : Registry} {i j : DescriptorId}

/-! ### References -/

/-- The module `i` names `j` among its references. -/
def Refers (r : Registry) (i j : DescriptorId) : Prop := j ∈ (r.get i).parents

/-- References lead from `i` to `j`, in zero or more steps. -/
def Reaches (r : Registry) : DescriptorId → DescriptorId → Prop := Relation.ReflTransGen r.Refers

/-- References lead from `i` back to `i`, in one or more steps. -/
def OnCycle (r : Registry) (i : DescriptorId) : Prop := Relation.TransGen r.Refers i i

/-- No module on a cycle can be reached. -/
def CycleFree (r : Registry) (i : DescriptorId) : Prop := ∀ j, r.Reaches i j → ¬ r.OnCycle j

theorem get_of_length_le (h : r.length ≤ i) : r.get i = ⟨"", none, none, none, [], [], [], []⟩ := by
  rw [get, List.getElem?_eq_none h, Option.getD_none]

theorem Refers.lt_length (h : r.Refers i j) : i < r.length := by
  by_contra hi
  rw [Refers, get_of_length_le (Nat.le_of_not_lt hi)] at h
  cases h

theorem CycleFree.of_refers (h : r.CycleFree i) (hj : r.Refers i j) : r.CycleFree j :=
  fun k hk => h k (hk.head hj)

/-- A module is free of cycles exactly when those it refers to are: a cycle through the module
itself passes through one of its references. -/
theorem cycleFree_iff : r.CycleFree i ↔ ∀ j, r.Refers i j → r.CycleFree j := by
  refine ⟨fun h j hj => h.of_refers hj, fun h j hij hj => ?_⟩
  rcases Relation.ReflTransGen.cases_head hij with rfl | ⟨k, hk, hkj⟩
  · obtain ⟨k, hk, hki⟩ := Relation.TransGen.head'_iff.mp hj
    exact h k hk i hki hj
  · exact h k hk j hkj hj

theorem cycleFree_of_length_le (h : r.length ≤ i) : r.CycleFree i :=
  cycleFree_iff.mpr fun _ hij => absurd hij.lt_length (Nat.not_lt_of_le h)

/-- Modules that refer to earlier ones only are free of cycles. -/
theorem cycleFree_of_descending {n : ℕ} (h : ∀ i < n, ∀ j ∈ (r.get i).parents, j < i) :
    ∀ i < n, r.CycleFree i := by
  intro i hi
  induction i using Nat.strong_induction_on with
  | _ i ih =>
    refine cycleFree_iff.mpr fun j hij => ?_
    have hlt := h i hi j hij
    exact ih j hlt (hlt.trans hi)

/-! ### References come to an end -/

/-- The induction behind `acc_of_cycleFree`: the modules on `path` all lead to `i`, so `i` is not
one of them, and the number of modules off the path goes down with every step. -/
theorem acc_of_path (r : Registry) : ∀ (n : ℕ) (path : List DescriptorId) (i : DescriptorId),
    Resolver.unvisited r path = n → (∀ a ∈ path, Relation.TransGen r.Refers a i) →
      r.CycleFree i → Acc (fun j i => r.Refers i j) i := by
  intro n
  induction n using Nat.strong_induction_on with
  | _ n ih =>
    intro path i hn hpath hi
    refine Acc.intro i fun j hij => ?_
    have hfresh : path.contains i = false := by
      rw [← Bool.not_eq_true, List.contains_iff_mem]
      exact fun hmem => hi i Relation.ReflTransGen.refl (hpath i hmem)
    have hless := Resolver.unvisited_lt hij.lt_length hfresh
    refine ih _ (hn ▸ hless) (path ++ [i]) j rfl (fun a ha => ?_) (hi.of_refers hij)
    rcases List.mem_append.mp ha with ha | ha
    · exact (hpath a ha).tail hij
    · rw [List.mem_singleton.mp ha]
      exact Relation.TransGen.single hij

/-- From a module that is free of cycles, references cannot be followed for ever. -/
theorem acc_of_cycleFree (h : r.CycleFree i) : Acc (fun j i => r.Refers i j) i :=
  acc_of_path r _ [] i rfl (fun _ ha => by cases ha) h

/-- The modules that are free of cycles. -/
abbrev Acyclic (r : Registry) := {i : DescriptorId // r.CycleFree i}

namespace Acyclic

/-- The references of a module that is free of cycles, in order and with repetitions. -/
def parents (i : r.Acyclic) : List r.Acyclic :=
  (r.get i.val).parents.pmap Subtype.mk fun _ hj => i.property.of_refers hj

theorem map_val_parents (i : r.Acyclic) : i.parents.map Subtype.val = (r.get i.val).parents := by
  rw [parents, List.map_pmap]
  exact List.pmap_eq_self.mpr fun _ _ => rfl

theorem refers_of_mem_parents {i p : r.Acyclic} (h : p ∈ i.parents) :
    r.Refers i.val p.val := by
  rw [Refers, ← map_val_parents]
  exact List.mem_map_of_mem h

/-- Modules that are free of cycles and are the references of `i` make `i` one of them. -/
theorem cycleFree_of_map_val {qs : List r.Acyclic} (h : qs.map Subtype.val = (r.get i).parents) :
    r.CycleFree i := by
  refine cycleFree_iff.mpr fun p hp => ?_
  rw [Refers, ← h] at hp
  obtain ⟨q, -, rfl⟩ := List.mem_map.mp hp
  exact q.property

theorem eq_parents_of_map_val {i : r.Acyclic} {qs : List r.Acyclic}
    (h : qs.map Subtype.val = (r.get i.val).parents) : qs = i.parents :=
  List.map_injective_iff.mpr Subtype.val_injective (h.trans i.map_val_parents.symm)

instance : WellFoundedRelation r.Acyclic where
  rel j i := r.Refers i.val j.val
  wf := ⟨fun i => InvImage.accessible Subtype.val (acc_of_cycleFree i.property)⟩

end Acyclic

/-- All pins of one kind that a module inherits, in the order of its references and with
repetitions, and behind them those it declares itself. -/
def flat (own : Descriptor → List Pin) (i : r.Acyclic) : List Pin :=
  i.parents.attach.flatMap (fun p => flat own p.val) ++ own (r.get i.val)
  termination_by i
  decreasing_by exact Acyclic.refers_of_mem_parents p.property

theorem flat_eq (own : Descriptor → List Pin) (i : r.Acyclic) :
    flat own i = i.parents.flatMap (flat own) ++ own (r.get i.val) := by
  rw [flat, List.flatMap_subtype (g := flat own) fun _ _ => rfl, List.unattach_attach]

/-! ### Cycles as lists -/

/-- A list of modules, each of which refers to the next one, that begins at a module reached from
`i` and ends where it begins without any other repetition. -/
def IsCycle (r : Registry) (i : DescriptorId) (cycle : List DescriptorId) : Prop :=
  ∃ first inner, cycle = first :: inner ++ [first] ∧ (first :: inner).Nodup ∧
    cycle.IsChain r.Refers ∧ r.Reaches i first

theorem transGen_of_isChain : ∀ {inner : List DescriptorId} {first last : DescriptorId},
    (first :: inner ++ [last]).IsChain r.Refers → Relation.TransGen r.Refers first last
  | [], _, _, h => Relation.TransGen.single (by simpa using h)
  | _ :: _, _, _, h => by
    rw [List.cons_append, List.cons_append, List.isChain_cons_cons] at h
    exact (transGen_of_isChain h.2).head h.1

theorem IsCycle.of_refers {cycle : List DescriptorId} (hij : r.Refers i j)
    (h : r.IsCycle j cycle) : r.IsCycle i cycle := by
  obtain ⟨first, inner, hcycle, hdistinct, hlinked, hreached⟩ := h
  exact ⟨first, inner, hcycle, hdistinct, hlinked, hreached.head hij⟩

theorem not_cycleFree_of_isCycle {cycle : List DescriptorId} (h : r.IsCycle i cycle) :
    ¬ r.CycleFree i := by
  obtain ⟨first, inner, rfl, -, hlinked, hreached⟩ := h
  exact fun hi => hi first hreached (transGen_of_isChain hlinked)

end Registry

end ModulePins
