import Mathlib.Data.List.Forall2
import ModulePins.Proofs.Inheritance.Resolution

/-!
# Registries that match

Modules refer to each other by number, and the numbers come from the order of registration. Nothing
that resolution answers depends on them: if a relation pairs modules of two registries in such a way
that a pair has the same label, declares the same, and refers to pairs in the same order, then
resolving either of a pair gives the same answer, be it pins or the labels of a cycle.

The relation need not pair all modules. Modules that are not paired cannot be reached from those
that are, so this is also the statement that nothing but what is reached has any influence.

## Main definitions

* `Registry.Matches` — a relation that pairs modules with the same declarations

## Main results

* `Registry.Matches.outcome_resolve` — resolving either of a pair gives the same answer
-/

namespace ModulePins

open List Resolver

namespace Registry

variable {R : DescriptorId → DescriptorId → Prop} {r r' : Registry} {i j : DescriptorId}
  {path path' : List DescriptorId}

/-- The relation pairs registered modules one to one. A pair has the same label and the same pins,
and its references are pairs in turn. -/
structure Matches (R : DescriptorId → DescriptorId → Prop) (r r' : Registry) : Prop where
  unique : Relator.BiUnique R
  registered : ∀ {i j}, R i j → i < r.length ∧ j < r'.length
  label : ∀ {i j}, R i j → r'.label j = r.label i
  outputs : ∀ {i j}, R i j → (r'.get j).outputs = (r.get i).outputs
  inputs : ∀ {i j}, R i j → (r'.get j).inputs = (r.get i).inputs
  parents : ∀ {i j}, R i j → Forall₂ R (r.get i).parents (r'.get j).parents

/-! ### Modules free of cycles -/

theorem flatMap_eq_of_forall₂ {α β γ : Type} {S : α → β → Prop} {f : α → List γ} {g : β → List γ}
    {xs : List α} {ys : List β} (h : Forall₂ S xs ys) (hfg : ∀ a ∈ xs, ∀ b, S a b → g b = f a) :
    ys.flatMap g = xs.flatMap f := by
  induction h with
  | nil => rfl
  | @cons a b xs ys hab _ ih =>
    rw [flatMap_cons, flatMap_cons, hfg a mem_cons_self b hab,
      ih fun a' ha' => hfg a' (mem_cons_of_mem _ ha')]

theorem exists_of_mem_right {α β : Type} {S : α → β → Prop} {xs : List α} {ys : List β} {b : β}
    (h : Forall₂ S xs ys) (hb : b ∈ ys) : ∃ a ∈ xs, S a b := by
  induction h with
  | nil => cases hb
  | @cons a b' xs ys hab _ ih =>
    rcases mem_cons.mp hb with rfl | hb
    · exact ⟨a, mem_cons_self, hab⟩
    · obtain ⟨a', ha', hab'⟩ := ih hb
      exact ⟨a', mem_cons_of_mem _ ha', hab'⟩

theorem Matches.cycleFree (h : Matches R r r') (hi : r.CycleFree i) (hij : R i j) :
    r'.CycleFree j := by
  have hacc := acc_of_cycleFree hi
  induction hacc generalizing j with
  | intro i _ ih =>
    refine cycleFree_iff.mpr fun q hq => ?_
    obtain ⟨p, hp, hpq⟩ := exists_of_mem_right (h.parents hij) hq
    exact ih p hp (hi.of_refers hp) hpq

/-- The flat declarations of a pair are the same. -/
theorem Matches.flat (h : Matches R r r') {own : Descriptor → List Pin}
    (hown : ∀ {i j}, R i j → own (r'.get j) = own (r.get i)) (i : r.Acyclic) (j : r'.Acyclic)
    (hij : R i.val j.val) : flat own j = flat own i := by
  induction i using WellFounded.induction (WellFoundedRelation.wf (α := r.Acyclic))
    generalizing j with
  | _ i ih =>
    have hparents := h.parents hij
    rw [← i.map_val_parents, ← j.map_val_parents, forall₂_map_left_iff, forall₂_map_right_iff]
      at hparents
    rw [flat_eq, flat_eq, hown hij, flatMap_eq_of_forall₂ hparents fun p hp q hpq =>
      ih p (Acyclic.refers_of_mem_parents hp) q hpq]

theorem Matches.pins (h : Matches R r r') {i : r.Acyclic} {j : r'.Acyclic} (hij : R i.val j.val) :
    pins j = pins i := by
  rw [Resolver.pins, Resolver.pins, h.flat h.outputs i j hij, h.flat h.inputs i j hij]

/-! ### Cycles -/

theorem rel_findSome? {α β γ δ : Type} {S : α → β → Prop} {T : γ → δ → Prop} {f : α → Option γ}
    {g : β → Option δ} {xs : List α} {ys : List β} (h : Forall₂ S xs ys)
    (hfg : ∀ a ∈ xs, ∀ b, S a b → Option.Rel T (f a) (g b)) :
    Option.Rel T (xs.findSome? f) (ys.findSome? g) := by
  induction h with
  | nil => exact .none
  | @cons a b xs ys hab _ ih =>
    have hfirst := hfg a mem_cons_self b hab
    rw [findSome?_cons, findSome?_cons]
    cases hfa : f a <;> cases hgb : g b <;> rw [hfa, hgb] at hfirst
    · exact ih fun a' ha' => hfg a' (mem_cons_of_mem _ ha')
    · cases hfirst
    · cases hfirst
    · exact hfirst

theorem Matches.contains (h : Matches R r r') (hpath : Forall₂ R path path') (hij : R i j) :
    path'.contains j = path.contains i := by
  rw [Bool.eq_iff_iff, contains_iff_mem, contains_iff_mem]
  exact (rel_mem h.unique hij hpath).symm

theorem Matches.dropWhile (h : Matches R r r') (hpath : Forall₂ R path path') (hij : R i j) :
    Forall₂ R (path.dropWhile (· ≠ i)) (path'.dropWhile (· ≠ j)) := by
  induction hpath with
  | nil => exact .nil
  | @cons a b path path' hab hrest ih =>
    have hsame : a = i ↔ b = j := Relator.rel_eq h.unique hab hij
    by_cases ha : a = i
    · rw [dropWhile_cons_of_neg (by simpa using ha),
        dropWhile_cons_of_neg (by simpa using hsame.mp ha)]
      exact .cons hab hrest
    · rw [dropWhile_cons_of_pos (by simpa using ha),
        dropWhile_cons_of_pos (by simpa using mt hsame.mpr ha)]
      exact ih

/-- A depth-first search from either of a pair finds the same cycle, if it finds one. -/
theorem Matches.firstCycle (h : Matches R r r') (hpath : Forall₂ R path path') (hij : R i j) :
    Option.Rel (Forall₂ R) (firstCycle r path i) (firstCycle r' path' j) := by
  induction path, i using firstCycle.induct r generalizing path' j with
  | case1 path i hi hfresh _ ih =>
    rw [firstCycle_of_fresh hi hfresh,
      firstCycle_of_fresh (h.registered hij).2 ((h.contains hpath hij).trans hfresh)]
    have hdeeper : Forall₂ R (path ++ [i]) (path' ++ [j]) := rel_append hpath (.cons hij .nil)
    exact rel_findSome? (h.parents hij) fun p _ q hpq => ih p hdeeper hpq
  | case2 path i hi hmem =>
    have hmem : path.contains i = true := by simpa using hmem
    rw [firstCycle_of_mem hi hmem,
      firstCycle_of_mem (h.registered hij).2 ((h.contains hpath hij).trans hmem)]
    exact .some (rel_append (h.dropWhile hpath hij) (.cons hij .nil))
  | case3 path i hi => exact absurd (h.registered hij).1 hi

/-! ### Answers -/

theorem Matches.labels (h : Matches R r r') (hpath : Forall₂ R path path') :
    path'.map r'.label = path.map r.label := by
  induction hpath with
  | nil => rfl
  | cons hab _ ih => rw [map_cons, map_cons, h.label hab, ih]

theorem Matches.answers {a : Except (List String) Effective} (h : Matches R r r')
    (hpath : Forall₂ R path path') (hij : R i j) (ha : Answers r path i a) :
    Answers r' path' j a := by
  cases a with
  | ok e =>
    obtain ⟨hi, rfl⟩ := ha
    exact ⟨h.cycleFree hi hij, (h.pins (i := ⟨i, hi⟩) (j := ⟨j, h.cycleFree hi hij⟩) hij).symm⟩
  | error labels =>
    obtain ⟨cycle, hcycle, rfl⟩ := ha
    have hrel := h.firstCycle hpath hij
    rw [hcycle] at hrel
    generalize hcycle' : Resolver.firstCycle r' path' j = other at hrel
    cases hrel with
    | some hpairs => exact ⟨_, hcycle', (h.labels hpairs).symm⟩

/-- **Resolving either of a pair gives the same answer.** -/
theorem Matches.outcome_resolve (h : Matches R r r') (hij : R i j) :
    (resolve r' [] j).outcome = (resolve r [] i).outcome := by
  have hanswer := (visit_spec r [] [] i (Memo.sound_nil r) (trail_nil r i)).1
  have hanswer' := (visit_spec r' [] [] j (Memo.sound_nil r') (trail_nil r' j)).1
  rw [Resolver.outcome_resolve, Resolver.outcome_resolve,
    (h.answers .nil hij hanswer).unique (trail_nil r' j) hanswer']

end Registry

end ModulePins
