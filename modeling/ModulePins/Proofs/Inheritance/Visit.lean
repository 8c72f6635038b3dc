import ModulePins.Proofs.Inheritance.FirstCycle
import ModulePins.Proofs.Keyed

/-!
# What a visit answers

`Resolver.visit` merges lists that have been collapsed already and skips whatever its memo knows.
This module says what it answers all the same, in terms that mention neither: the collapsed
declarations of everything the module inherits if the module is free of cycles, and the first cycle
of a depth-first search if it is not.

The invariant is `Memo.Sound`: every entry is the answer for a module that is free of cycles. It says
nothing about which modules have an entry, so it survives visits that fail half-way, and it is the
only thing that one visit hands to the next.

## Main definitions

* `Resolver.pins` — the pins of a module free of cycles, from its flat declarations
* `Memo.Sound` — what a memo may hold
* `Resolver.Answers` — what the outcome of a visit may be

## Main results

* `Resolver.Answers.unique` — the answer does not depend on the memo
* `Resolver.visit_spec` — a visit answers, and leaves a sound memo behind
-/

namespace ModulePins

open Registry

variable {r : Registry} {path : List DescriptorId} {i p : DescriptorId} {memo : Memo}

/-- The pins of two sources, those of the second one written over those of the first. -/
def Effective.mergeWith (merged e : Effective) : Effective :=
  ⟨merge merged.outputs e.outputs, merge merged.inputs e.inputs⟩

namespace Resolver

/-! ### One step of a visit

The cases of the two recursions, with everything they return. -/

theorem visit_of_lookup {e : Effective} (h : memo.lookup i = some e) :
    visit r path memo i = ⟨.ok e, memo, []⟩ := by
  rw [visit, h]

theorem visit_of_length_le (h : memo.lookup i = none) (hi : r.length ≤ i) :
    visit r path memo i = ⟨.ok ⟨[], []⟩, memo, []⟩ := by
  rw [visit, h]
  exact dif_neg (Nat.not_lt_of_le hi)

theorem visit_of_mem (h : memo.lookup i = none) (hi : i < r.length)
    (hmem : path.contains i = true) :
    visit r path memo i = ⟨.error (cycleFrom r path i), memo, []⟩ := by
  rw [visit, h]
  simp only [dif_pos hi]
  exact dif_neg (by rwa [Bool.not_eq_false])

/-- The references of a module that is neither known nor on the path. -/
def descend (r : Registry) (path : List DescriptorId) (memo : Memo) (i : DescriptorId) : Visit :=
  visitParents r (path ++ [i]) memo ⟨[], []⟩ (r.get i).parents

theorem visit_of_error (h : memo.lookup i = none) (hi : i < r.length)
    (hfresh : path.contains i = false) {labels : List String}
    (hout : (descend r path memo i).outcome = .error labels) :
    visit r path memo i =
      ⟨.error labels, (descend r path memo i).memo, (descend r path memo i).log⟩ := by
  rw [visit, h]
  simp only [dif_pos hi, dif_pos hfresh]
  rw [descend] at hout ⊢
  rw [hout]

theorem visit_of_ok (h : memo.lookup i = none) (hi : i < r.length)
    (hfresh : path.contains i = false) {e : Effective}
    (hout : (descend r path memo i).outcome = .ok e) :
    visit r path memo i =
      ⟨.ok (own (r.get i) e), (i, own (r.get i) e) :: (descend r path memo i).memo,
        (descend r path memo i).log ++ ownLog r i e⟩ := by
  rw [visit, h]
  simp only [dif_pos hi, dif_pos hfresh]
  rw [descend] at hout ⊢
  rw [hout]

theorem visitParents_nil (merged : Effective) :
    visitParents r path memo merged [] = ⟨.ok merged, memo, []⟩ := by
  rw [visitParents]

theorem visitParents_of_error (merged : Effective) (ps : List DescriptorId) {labels : List String}
    (hout : (visit r path memo p).outcome = .error labels) :
    visitParents r path memo merged (p :: ps) =
      ⟨.error labels, (visit r path memo p).memo, (visit r path memo p).log⟩ := by
  rw [visitParents]
  simp only [hout]

theorem visitParents_of_ok (merged : Effective) (ps : List DescriptorId) {e : Effective}
    (hout : (visit r path memo p).outcome = .ok e) :
    visitParents r path memo merged (p :: ps) =
      let w := visitParents r path (visit r path memo p).memo (merged.mergeWith e) ps
      ⟨w.outcome, w.memo, (visit r path memo p).log ++
        (mergeLog (r.label p) merged.outputs e.outputs ++
          mergeLog (r.label p) merged.inputs e.inputs) ++ w.log⟩ := by
  rw [visitParents]
  simp only [hout, Effective.mergeWith]

end Resolver

/-! ### Answers -/

namespace Resolver

/-- The pins of a module that is free of cycles: of everything it inherits and declares, each id at
its first position with its last pin. -/
def pins (i : r.Acyclic) : Effective :=
  ⟨Keyed.collapse Pin.id (flat Descriptor.outputs i),
    Keyed.collapse Pin.id (flat Descriptor.inputs i)⟩

end Resolver

/-- Every entry of the memo is about a module that is free of cycles, and holds its pins. -/
def Memo.Sound (r : Registry) (memo : Memo) : Prop :=
  ∀ i e, memo.lookup i = some e → ∃ h : r.CycleFree i, e = Resolver.pins ⟨i, h⟩

theorem Memo.sound_nil (r : Registry) : Memo.Sound r [] := fun _ _ h => by cases h

theorem Memo.Sound.cons {i : r.Acyclic} (h : Memo.Sound r memo) :
    Memo.Sound r ((i.val, Resolver.pins i) :: memo) := by
  intro j e hj
  rw [List.lookup_cons] at hj
  split at hj
  · rename_i hji
    rw [beq_iff_eq] at hji
    subst hji
    exact ⟨i.property, (Option.some.inj hj).symm⟩
  · exact h j e hj

namespace Resolver

/-- The outcomes that a visit of `i` may have: the pins of a module that is free of cycles, or the
labels of the first cycle of a depth-first search. -/
def Answers (r : Registry) (path : List DescriptorId) (i : DescriptorId) :
    Except (List String) Effective → Prop
  | .ok e => ∃ h : r.CycleFree i, e = pins ⟨i, h⟩
  | .error labels => ∃ cycle, firstCycle r path i = some cycle ∧ labels = cycle.map r.label

/-- There is one answer at most, whatever memo it was found with. -/
theorem Answers.unique {a b : Except (List String) Effective} (htrail : Trail r path i)
    (ha : Answers r path i a) (hb : Answers r path i b) : a = b := by
  cases a with
  | ok e =>
    obtain ⟨hi, rfl⟩ := ha
    cases b with
    | ok e' =>
      obtain ⟨-, rfl⟩ := hb
      rfl
    | error labels =>
      obtain ⟨cycle, hcycle, -⟩ := hb
      rw [firstCycle_eq_none_of_cycleFree htrail hi] at hcycle
      cases hcycle
  | error labels =>
    obtain ⟨cycle, hcycle, rfl⟩ := ha
    cases b with
    | ok e' =>
      obtain ⟨hi, -⟩ := hb
      rw [firstCycle_eq_none_of_cycleFree htrail hi] at hcycle
      cases hcycle
    | error labels' =>
      obtain ⟨cycle', hcycle', rfl⟩ := hb
      rw [hcycle, Option.some_inj] at hcycle'
      rw [hcycle']

/-- What a list of modules declares, one after the other. -/
def flatAll (qs : List r.Acyclic) : Effective :=
  ⟨qs.flatMap (flat Descriptor.outputs), qs.flatMap (flat Descriptor.inputs)⟩

theorem mergeWith_flatAll_cons (merged : Effective) (q : r.Acyclic) (qs : List r.Acyclic) :
    merged.mergeWith (flatAll (q :: qs)) = (merged.mergeWith (pins q)).mergeWith (flatAll qs) := by
  simp only [Effective.mergeWith, Effective.merge, flatAll, pins, List.flatMap_cons,
    Keyed.putAll_append, Keyed.putAll_collapse]

/-- The pins of a module are its own on top of what its references declare. -/
theorem own_mergeWith_flatAll (i : r.Acyclic) :
    own (r.get i.val) (Effective.mergeWith ⟨[], []⟩ (flatAll i.parents)) = pins i := by
  simp only [own, Effective.mergeWith, Effective.merge, flatAll, pins, flat_eq, Keyed.collapse,
    Keyed.putAll_append]

/-- The outcomes that visiting a list of references may have, with `merged` collected before. -/
def ParentsAnswer (r : Registry) (path : List DescriptorId) (merged : Effective)
    (ps : List DescriptorId) : Except (List String) Effective → Prop
  | .ok e => ∃ qs : List r.Acyclic, qs.map Subtype.val = ps ∧ e = merged.mergeWith (flatAll qs)
  | .error labels => ∃ cycle, ps.findSome? (firstCycle r path) = some cycle ∧
      labels = cycle.map r.label

/-- The references of a module in turn, given what visits of single modules on this path do. -/
theorem visitParents_spec (hvisit : ∀ memo p, Memo.Sound r memo → Trail r path p →
      Answers r path p (visit r path memo p).outcome ∧ Memo.Sound r (visit r path memo p).memo) :
    ∀ (ps : List DescriptorId) (memo : Memo) (merged : Effective), Memo.Sound r memo →
      (∀ p ∈ ps, Trail r path p) →
        ParentsAnswer r path merged ps (visitParents r path memo merged ps).outcome ∧
          Memo.Sound r (visitParents r path memo merged ps).memo
  | [], memo, merged, hmemo, _ => by
    rw [visitParents_nil]
    exact ⟨⟨[], rfl, rfl⟩, hmemo⟩
  | p :: ps, memo, merged, hmemo, htrail => by
    have hp := htrail p List.mem_cons_self
    obtain ⟨hanswer, hsound⟩ := hvisit memo p hmemo hp
    cases hout : (visit r path memo p).outcome with
    | error labels =>
      rw [hout] at hanswer
      obtain ⟨cycle, hcycle, rfl⟩ := hanswer
      rw [visitParents_of_error merged ps hout]
      exact ⟨⟨cycle, by rw [List.findSome?_cons, hcycle], rfl⟩, hsound⟩
    | ok e =>
      rw [hout] at hanswer
      obtain ⟨hfree, rfl⟩ := hanswer
      obtain ⟨hrest, hsound'⟩ := visitParents_spec hvisit ps (visit r path memo p).memo
        (merged.mergeWith (pins ⟨p, hfree⟩)) hsound
        fun q hq => htrail q (List.mem_cons_of_mem _ hq)
      rw [visitParents_of_ok merged ps hout]
      refine ⟨?_, hsound'⟩
      dsimp only
      cases hw : (visitParents r path (visit r path memo p).memo
          (merged.mergeWith (pins ⟨p, hfree⟩)) ps).outcome with
      | error labels =>
        rw [hw] at hrest
        obtain ⟨cycle, hcycle, rfl⟩ := hrest
        refine ⟨cycle, ?_, rfl⟩
        rw [List.findSome?_cons, firstCycle_eq_none_of_cycleFree hp hfree, hcycle]
      | ok e =>
        rw [hw] at hrest
        obtain ⟨qs, rfl, rfl⟩ := hrest
        exact ⟨⟨p, hfree⟩ :: qs, rfl, (mergeWith_flatAll_cons merged _ qs).symm⟩

/-- A module that is neither known nor on the path, given what visits from it do. -/
theorem visit_spec_of_fresh (hlookup : memo.lookup i = none) (hi : i < r.length)
    (hfresh : path.contains i = false)
    (hparents : ParentsAnswer r (path ++ [i]) ⟨[], []⟩ (r.get i).parents
      (descend r path memo i).outcome)
    (hsound : Memo.Sound r (descend r path memo i).memo) :
    Answers r path i (visit r path memo i).outcome ∧ Memo.Sound r (visit r path memo i).memo := by
  cases hout : (descend r path memo i).outcome with
  | error labels =>
    rw [hout] at hparents
    obtain ⟨cycle, hcycle, rfl⟩ := hparents
    rw [visit_of_error hlookup hi hfresh hout]
    exact ⟨⟨cycle, by rw [firstCycle_of_fresh hi hfresh, hcycle], rfl⟩, hsound⟩
  | ok e =>
    rw [hout] at hparents
    obtain ⟨qs, hqs, rfl⟩ := hparents
    have hfree : r.CycleFree i := Acyclic.cycleFree_of_map_val hqs
    rw [visit_of_ok hlookup hi hfresh hout,
      Acyclic.eq_parents_of_map_val (i := ⟨i, hfree⟩) hqs, own_mergeWith_flatAll ⟨i, hfree⟩]
    exact ⟨⟨hfree, rfl⟩, Memo.Sound.cons (i := ⟨i, hfree⟩) hsound⟩

theorem pins_of_length_le (hi : r.length ≤ i) :
    pins ⟨i, cycleFree_of_length_le hi⟩ = ⟨[], []⟩ := by
  rw [← own_mergeWith_flatAll, Acyclic.parents]
  simp only [get_of_length_le hi]
  rfl

/-- **A visit answers**, and leaves a sound memo behind. The induction is on the number of modules
that are not on the path. -/
theorem visit_spec (r : Registry) (path : List DescriptorId) (memo : Memo) (i : DescriptorId)
    (hmemo : Memo.Sound r memo) (htrail : Trail r path i) :
    Answers r path i (visit r path memo i).outcome ∧ Memo.Sound r (visit r path memo i).memo := by
  induction hn : unvisited r path using Nat.strong_induction_on generalizing path memo i with
  | _ n ih =>
    cases hlookup : memo.lookup i with
    | some e =>
      rw [visit_of_lookup hlookup]
      exact ⟨hmemo i e hlookup, hmemo⟩
    | none =>
      rcases Nat.lt_or_ge i r.length with hi | hi
      · cases hfresh : path.contains i with
        | true =>
          rw [visit_of_mem hlookup hi hfresh]
          exact ⟨⟨_, firstCycle_of_mem hi hfresh, by rw [cycleFrom, List.map_append]; rfl⟩, hmemo⟩
        | false =>
          have hless := unvisited_lt hi hfresh
          obtain ⟨hparents, hsound⟩ := visitParents_spec
            (fun memo p hmemo hp => ih _ (hn ▸ hless) (path ++ [i]) memo p hmemo hp rfl)
            (r.get i).parents memo ⟨[], []⟩ hmemo fun p hp => htrail.concat hfresh hp
          exact visit_spec_of_fresh hlookup hi hfresh hparents hsound
      · rw [visit_of_length_le hlookup hi]
        exact ⟨⟨cycleFree_of_length_le hi, (pins_of_length_le hi).symm⟩, hmemo⟩

end Resolver

end ModulePins
