import Mathlib
import ModulePins.Proofs.Inheritance.Visit

/-!
# Resolution

What `Resolver.resolve` gives for a module, and that reusing a memo does not change it. The visits
behind it are described in `Visit`; here the properties of the input pins are attached, and the
statements are read off.

## Main results

* `Resolver.resolve_eq_flat` — without a cycle in reach, the pins are those of the flat declarations
* `Resolver.resolve_error_iff` — resolution fails exactly at cycles, and reports a genuine one
* `Resolver.resolveAll_eq_map` — a resolver that is used again answers like a new one
-/

namespace ModulePins

open Registry

variable {r : Registry} {i : DescriptorId} {memo : Memo}

/-! ### Attaching properties -/

namespace Effective

@[simp] theorem outputs_attach (e : Effective) : e.attach.outputs = e.outputs := rfl

/-- The input pin that `attach` makes of `p`. -/
def attached (e : Effective) (p : Pin) : Pin :=
  match Keyed.find? Pin.id p.id e.outputs with
  | some o => p.attach o
  | none => p

theorem inputs_attach (e : Effective) : e.attach.inputs = e.inputs.map e.attached := rfl

@[simp] theorem id_attached (e : Effective) (p : Pin) : (e.attached p).id = p.id := by
  unfold attached
  split <;> rfl

@[simp] theorem required_attached (e : Effective) (p : Pin) :
    (e.attached p).required = p.required := by
  unfold attached
  split <;> rfl

theorem properties_attached (e : Effective) (p : Pin) :
    (e.attached p).properties = ((Keyed.find? Pin.id p.id e.outputs).getD p).properties := by
  unfold attached
  split <;> simp_all [Pin.attach]

@[simp] theorem inputIds_attach (e : Effective) : e.attach.inputIds = e.inputIds := by
  rw [inputIds, inputs_attach, List.map_map, inputIds]
  exact List.map_congr_left fun p _ => e.id_attached p

end Effective

namespace Resolver

/-! ### From visits to resolution -/

theorem outcome_resolve (r : Registry) (memo : Memo) (i : DescriptorId) :
    (resolve r memo i).outcome = (visit r [] memo i).outcome.map Effective.attach := rfl

theorem memo_resolve (r : Registry) (memo : Memo) (i : DescriptorId) :
    (resolve r memo i).memo = (visit r [] memo i).memo := rfl

theorem sound_memo_resolve (hmemo : Memo.Sound r memo) : Memo.Sound r (resolve r memo i).memo := by
  rw [memo_resolve]
  exact (visit_spec r [] memo i hmemo (trail_nil r i)).2

theorem outcome_resolve_of_cycleFree (hmemo : Memo.Sound r memo) (hi : r.CycleFree i) :
    (resolve r memo i).outcome = .ok (pins ⟨i, hi⟩).attach := by
  have hanswer := (visit_spec r [] memo i hmemo (trail_nil r i)).1
  rw [outcome_resolve, hanswer.unique (trail_nil r i) (b := .ok (pins ⟨i, hi⟩)) ⟨hi, rfl⟩]
  rfl

/-- A resolution that fails has met a cycle that can be reached. -/
theorem isCycle_of_outcome_resolve (hmemo : Memo.Sound r memo) {labels : List String}
    (h : (resolve r memo i).outcome = .error labels) :
    ∃ cycle, r.IsCycle i cycle ∧ labels = cycle.map r.label := by
  have hanswer := (visit_spec r [] memo i hmemo (trail_nil r i)).1
  rw [outcome_resolve] at h
  cases hout : (visit r [] memo i).outcome with
  | ok e =>
    rw [hout] at h
    cases h
  | error labels' =>
    rw [hout] at h hanswer
    cases h
    obtain ⟨cycle, hcycle, rfl⟩ := hanswer
    exact ⟨cycle, isCycle_of_firstCycle (trail_nil r i) hcycle, rfl⟩

/-- What a resolution answers does not depend on the memo. -/
theorem outcome_resolve_eq {memo' : Memo} (hmemo : Memo.Sound r memo)
    (hmemo' : Memo.Sound r memo') :
    (resolve r memo i).outcome = (resolve r memo' i).outcome := by
  have hanswer := (visit_spec r [] memo i hmemo (trail_nil r i)).1
  have hanswer' := (visit_spec r [] memo' i hmemo' (trail_nil r i)).1
  rw [outcome_resolve, outcome_resolve, hanswer.unique (trail_nil r i) hanswer']

/-! ### Main statements -/

/-- **Resolution agrees with the flat declarations.** For a module from which no cycle can be
reached it succeeds. Each id stands where it first appears among the flat declarations and has the
last pin declared under it; an input pin shows the properties of the output pin with its id, if
there is one, and otherwise its own. -/
theorem resolve_eq_flat (r : Registry) (i : DescriptorId) (hi : r.CycleFree i) :
    ∃ e, (resolve r [] i).outcome = .ok e ∧
      e.outputIds.Nodup ∧
      e.outputIds = ((flat Descriptor.outputs ⟨i, hi⟩).map Pin.id).eraseDups ∧
      (∀ p ∈ e.outputs, Keyed.last? Pin.id p.id (flat Descriptor.outputs ⟨i, hi⟩) = some p) ∧
      e.inputIds.Nodup ∧
      e.inputIds = ((flat Descriptor.inputs ⟨i, hi⟩).map Pin.id).eraseDups ∧
      ∀ p ∈ e.inputs, ∃ q, Keyed.last? Pin.id p.id (flat Descriptor.inputs ⟨i, hi⟩) = some q ∧
        p.required = q.required ∧
        p.properties = ((Keyed.find? Pin.id p.id e.outputs).getD q).properties := by
  refine ⟨(pins ⟨i, hi⟩).attach, outcome_resolve_of_cycleFree (Memo.sound_nil r) hi,
    Keyed.nodup_map_key_collapse _, Keyed.map_key_collapse _,
    fun p hp => Keyed.last?_of_mem_collapse hp, ?_, ?_, fun p hp => ?_⟩
  · rw [Effective.inputIds_attach]
    exact Keyed.nodup_map_key_collapse _
  · rw [Effective.inputIds_attach]
    exact Keyed.map_key_collapse _
  · rw [Effective.inputs_attach] at hp
    obtain ⟨q, hq, rfl⟩ := List.mem_map.mp hp
    rw [Effective.id_attached, Effective.required_attached, Effective.properties_attached]
    exact ⟨q, Keyed.last?_of_mem_collapse hq, rfl, rfl⟩

/-- Two modules inherit the first one, one of them twice; the fourth one inherits both and declares
an id twice. The last one is on a cycle that none of the others reaches. -/
def diamond : Registry :=
  [{ name := "base", outputs := [⟨"a", true, [{ key := "x" }]⟩, ⟨"b", false, []⟩],
      inputs := [⟨"a", true, []⟩] },
    { name := "left", outputs := [⟨"b", true, [{ key := "y" }]⟩], parents := [0] },
    { name := "right", inputs := [⟨"c", false, []⟩, ⟨"a", false, []⟩], parents := [0, 0] },
    { name := "top", outputs := [⟨"d", false, []⟩, ⟨"d", true, []⟩], parents := [2, 1] },
    { name := "round", parents := [4] }]

theorem resolve_diamond : diamond.CycleFree 3 ∧ ∃ e, (resolve diamond [] 3).outcome = .ok e ∧
    e.outputIds = ["a", "b", "d"] ∧ e.inputIds = ["a", "c"] := by
  have hfree : diamond.CycleFree 3 := cycleFree_of_descending (n := 4) (by decide) 3 (by decide)
  obtain ⟨e, he, -, houtputs, -, -, hinputs, -⟩ := resolve_eq_flat diamond 3 hfree
  refine ⟨hfree, e, he, ?_, ?_⟩
  · rw [houtputs]
    simp [flat_eq, Acyclic.parents, diamond, Registry.get, List.eraseDups_cons]
  · rw [hinputs]
    simp [flat_eq, Acyclic.parents, diamond, Registry.get, List.eraseDups_cons]

/-- **Resolution fails exactly at cycles.** It always comes to an end, being a total function; it
fails if and only if a module on a cycle can be reached, and then reports the labels of a cycle that
is there. -/
theorem resolve_error_iff (r : Registry) (i : DescriptorId) :
    ((∃ labels, (resolve r [] i).outcome = .error labels) ↔ ∃ j, r.Reaches i j ∧ r.OnCycle j) ∧
      ∀ labels, (resolve r [] i).outcome = .error labels →
        ∃ cycle, r.IsCycle i cycle ∧ labels = cycle.map r.label := by
  refine ⟨⟨fun ⟨labels, h⟩ => ?_, fun ⟨j, hij, hj⟩ => ?_⟩,
    fun labels h => isCycle_of_outcome_resolve (Memo.sound_nil r) h⟩
  · obtain ⟨cycle, hcycle, -⟩ := isCycle_of_outcome_resolve (Memo.sound_nil r) h
    have hi := not_cycleFree_of_isCycle hcycle
    rw [CycleFree] at hi
    push Not at hi
    exact hi
  · cases hout : (visit r [] [] i).outcome with
    | error labels => exact ⟨labels, by rw [outcome_resolve, hout]; rfl⟩
    | ok e =>
      have hanswer := (visit_spec r [] [] i (Memo.sound_nil r) (trail_nil r i)).1
      rw [hout] at hanswer
      obtain ⟨hi, -⟩ := hanswer
      exact absurd hj (hi j hij)

theorem resolve_round : (resolve diamond [] 4).outcome = .error ["round", "round"] ∧
    ∃ cycle, diamond.IsCycle 4 cycle ∧ ["round", "round"] = cycle.map diamond.label := by
  have h : (resolve diamond [] 4).outcome = .error ["round", "round"] := by cbv
  exact ⟨h, (resolve_error_iff diamond 4).2 _ h⟩

/-- The answers of one resolver to several requests in turn. -/
def resolveAll (r : Registry) : Memo → List DescriptorId → List (Except (List String) Effective)
  | _, [] => []
  | memo, i :: is => (resolve r memo i).outcome :: resolveAll r (resolve r memo i).memo is

theorem resolveAll_eq_map_of_sound : ∀ (is : List DescriptorId) {memo : Memo},
    Memo.Sound r memo → resolveAll r memo is = is.map fun i => (resolve r [] i).outcome
  | [], _, _ => rfl
  | i :: is, memo, hmemo => by
    rw [resolveAll, resolveAll_eq_map_of_sound is (sound_memo_resolve hmemo),
      outcome_resolve_eq hmemo (Memo.sound_nil r), List.map_cons]

/-- **A resolver may be reused.** Whatever it was asked before, and whether that succeeded or not,
it answers like a resolver that has not been asked anything. -/
theorem resolveAll_eq_map (r : Registry) (is : List DescriptorId) :
    resolveAll r [] is = is.map fun i => (resolve r [] i).outcome :=
  resolveAll_eq_map_of_sound is (Memo.sound_nil r)

end Resolver

end ModulePins
