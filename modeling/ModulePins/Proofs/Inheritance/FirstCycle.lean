import Mathlib.Data.List.Nodup
import Mathlib.Data.List.TakeWhile
import ModulePins.Proofs.Inheritance.Graph

/-!
# The first cycle of a depth-first search

What resolution would report if it remembered nothing: `Resolver.firstCycle` follows the references
of a module depth first, without memo, pins or log, and returns the first cycle it closes. It is the
second side of every statement about failing resolutions, because its answer depends on the registry
and the path alone.

Two facts make it exact. Without any hypothesis, finding nothing means that there is nothing
(`cycleFree_of_firstCycle_eq_none`). Conversely what it finds is a genuine cycle as long as the path
is a `Trail` (`isCycle_of_firstCycle`): a chain of references without repetition that leads to the
module. The trail is also what makes a memo harmless, since a module that is known to be free of
cycles cannot stand on a trail that leads to it.
-/

namespace ModulePins

namespace Resolver

open Registry

variable {r : Registry} {path : List DescriptorId} {i : DescriptorId}

/-- The first cycle that a depth-first search from `i` closes, where the modules on `path` led to
`i`. -/
def firstCycle (r : Registry) (path : List DescriptorId) (i : DescriptorId) :
    Option (List DescriptorId) :=
  if registered : i < r.length then
    if fresh : path.contains i = false then
      have := unvisited_lt registered fresh
      (r.get i).parents.findSome? (firstCycle r (path ++ [i]))
    else some (path.dropWhile (· ≠ i) ++ [i])
  else none
  termination_by unvisited r path

theorem firstCycle_of_fresh (hi : i < r.length) (hfresh : path.contains i = false) :
    firstCycle r path i = (r.get i).parents.findSome? (firstCycle r (path ++ [i])) := by
  rw [firstCycle, dif_pos hi, dif_pos hfresh]

theorem firstCycle_of_mem (hi : i < r.length) (hmem : path.contains i = true) :
    firstCycle r path i = some (path.dropWhile (· ≠ i) ++ [i]) := by
  rw [firstCycle, dif_pos hi, dif_neg (by rwa [Bool.not_eq_false])]

theorem firstCycle_of_length_le (hi : r.length ≤ i) : firstCycle r path i = none := by
  rw [firstCycle, dif_neg (Nat.not_lt_of_le hi)]

/-- A search that closes no cycle has seen everything there is. -/
theorem cycleFree_of_firstCycle_eq_none (h : firstCycle r path i = none) : r.CycleFree i := by
  induction path, i using firstCycle.induct r with
  | case1 path i hi hfresh _ ih =>
    rw [firstCycle_of_fresh hi hfresh, List.findSome?_eq_none_iff] at h
    exact cycleFree_iff.mpr fun p hp => ih p (h p hp)
  | case2 path i hi hmem =>
    rw [firstCycle_of_mem hi (by simpa using hmem)] at h
    cases h
  | case3 path i hi => exact cycleFree_of_length_le (Nat.le_of_not_lt hi)

/-! ### Trails -/

/-- The modules on `path` refer to one another in turn, the last one refers to `i`, and none of
them comes twice. -/
def Trail (r : Registry) (path : List DescriptorId) (i : DescriptorId) : Prop :=
  (path ++ [i]).IsChain r.Refers ∧ path.Nodup

theorem trail_nil (r : Registry) (i : DescriptorId) : Trail r [] i :=
  ⟨List.isChain_singleton i, List.nodup_nil⟩

theorem Trail.concat {p : DescriptorId} (h : Trail r path i) (hfresh : path.contains i = false)
    (hp : r.Refers i p) : Trail r (path ++ [i]) p := by
  refine ⟨?_, ?_⟩
  · rw [List.isChain_append]
    refine ⟨h.1, List.isChain_singleton p, fun a ha b hb => ?_⟩
    rw [List.getLast?_concat, Option.mem_some_iff] at ha
    rw [List.head?_singleton, Option.mem_some_iff] at hb
    exact ha ▸ hb ▸ hp
  · rw [List.nodup_append]
    refine ⟨h.2, List.nodup_singleton i, fun a ha b hb hab => ?_⟩
    rw [List.mem_singleton.mp hb] at hab
    rw [← Bool.not_eq_true, List.contains_iff_mem] at hfresh
    exact hfresh (hab ▸ ha)

/-- Where a trail meets one of its own modules, the rest of it from there on is a cycle. -/
theorem Trail.isCycle (h : Trail r path i) (hmem : path.contains i = true) :
    r.IsCycle i (path.dropWhile (· ≠ i) ++ [i]) := by
  obtain ⟨before, hpath⟩ := List.dropWhile_suffix (fun j => decide (j ≠ i)) (l := path)
  cases hrest : path.dropWhile (· ≠ i) with
  | nil =>
    have hall := List.dropWhile_eq_nil_iff.mp hrest i (List.contains_iff_mem.mp hmem)
    simp at hall
  | cons a inner =>
    have ha : a = i := by
      have := List.head?_dropWhile_not (fun j => decide (j ≠ i)) path
      rw [hrest] at this
      simpa using this
    subst ha
    rw [hrest] at hpath
    refine ⟨a, inner, rfl, ?_, ?_, Relation.ReflTransGen.refl⟩
    · exact (List.nodup_append.mp (hpath ▸ h.2)).2.1
    · exact h.1.suffix ⟨before, by rw [← hpath, List.append_assoc]⟩

/-- What the search reports is a cycle that can be reached. -/
theorem isCycle_of_firstCycle {cycle : List DescriptorId} (htrail : Trail r path i)
    (h : firstCycle r path i = some cycle) : r.IsCycle i cycle := by
  induction path, i using firstCycle.induct r with
  | case1 path i hi hfresh _ ih =>
    rw [firstCycle_of_fresh hi hfresh] at h
    obtain ⟨p, hp, hcycle⟩ := List.exists_of_findSome?_eq_some h
    exact (ih p (htrail.concat hfresh hp) hcycle).of_refers hp
  | case2 path i hi hmem =>
    have hmem : path.contains i = true := by simpa using hmem
    rw [firstCycle_of_mem hi hmem, Option.some_inj] at h
    exact h ▸ htrail.isCycle hmem
  | case3 path i hi =>
    rw [firstCycle_of_length_le (Nat.le_of_not_lt hi)] at h
    cases h

/-- The search from a module free of cycles finds nothing, whatever led to the module. -/
theorem firstCycle_eq_none_of_cycleFree (htrail : Trail r path i) (h : r.CycleFree i) :
    firstCycle r path i = none := by
  cases hcycle : firstCycle r path i with
  | none => rfl
  | some cycle => exact absurd h (not_cycleFree_of_isCycle (isCycle_of_firstCycle htrail hcycle))

end Resolver

end ModulePins
