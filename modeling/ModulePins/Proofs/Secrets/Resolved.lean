import ModulePins.Proofs.Inheritance.Visit
import ModulePins.Proofs.Secrets.Masked
import ModulePins.Proofs.Workspace.Rendering

/-!
# Inheriting without secrets

Resolving the references of a masked registry takes the same way as resolving those of the plain
one: pins are told apart by their ids, modules by their numbers, and the records name both. So the
pins that result are the plain ones, masked, and the records are the same; and so is the document
that is made of them.

A memo that is not empty has to be masked as well. This is why the memo is general in the lemmas,
although rendering starts from an empty one.

## Main definitions

* `Memo.masked`, `Resolver.Visit.masked`, `Workspace.masked` — without secrets

## Main results

* `Resolver.visit_masked`, `Resolver.resolve_masked` — visits
* `Workspace.rendering_masked` — documents
-/

namespace ModulePins

open Effective

/-! ### Pins -/

namespace Effective

theorem merge_masked (target pins : List Pin) :
    merge (target.map Pin.masked) (pins.map Pin.masked) = (merge target pins).map Pin.masked :=
  (Keyed.map_putAll Pin.id_masked target pins).symm

theorem mergeWith_masked (merged e : Effective) :
    merged.masked.mergeWith e.masked = (merged.mergeWith e).masked := by
  simp only [mergeWith, masked, merge_masked]

theorem outputIds_masked (e : Effective) : e.masked.outputIds = e.outputIds := by
  simp [outputIds, masked, Function.comp_def]

theorem inputIds_masked (e : Effective) : e.masked.inputIds = e.inputIds := by
  simp [inputIds, masked, Function.comp_def]

theorem attach_masked (e : Effective) : e.masked.attach = e.attach.masked := by
  simp only [attach, masked, mk.injEq, true_and, List.map_map]
  refine List.map_congr_left fun p _ => ?_
  simp only [Function.comp_apply, Pin.id_masked, Keyed.find?_map Pin.id_masked]
  cases Keyed.find? Pin.id p.id e.outputs <;> rfl

end Effective

/-! ### Registries and memos -/

namespace Registry

variable (r : Registry)

@[simp] theorem length_masked : r.masked.length = r.length := List.length_map _

@[simp] theorem get_masked (i : DescriptorId) : r.masked.get i = (r.get i).masked := by
  rw [get, get, masked, List.getElem?_map]
  cases r[i]? <;> rfl

@[simp] theorem label_masked (i : DescriptorId) : r.masked.label i = r.label i := by
  simp [label, Descriptor.masked]

theorem label_masked_eq : r.masked.label = r.label := funext r.label_masked

end Registry

/-- The memo without secrets. -/
def Memo.masked (memo : Memo) : Memo := memo.map fun e => (e.1, e.2.masked)

theorem Memo.lookup_masked (memo : Memo) (i : DescriptorId) :
    memo.masked.lookup i = (memo.lookup i).map Effective.masked := by
  induction memo with
  | nil => rfl
  | cons e memo ih =>
    change ((e.1, e.2.masked) :: Memo.masked memo).lookup i = _
    rw [List.lookup_cons, List.lookup_cons]
    cases i == e.1
    · exact ih
    · rfl

namespace Resolver

/-- The outcome of a visit without secrets. -/
def Visit.masked (v : Visit) : Visit := ⟨v.outcome.map Effective.masked, v.memo.masked, v.log⟩

variable {r : Registry} {path : List DescriptorId} {i : DescriptorId}

/-! ### Records -/

theorem mergeLog_masked (source : String) (target pins : List Pin) :
    mergeLog source (target.map Pin.masked) (pins.map Pin.masked) =
      mergeLog source target pins := by
  induction pins generalizing target with
  | nil => rfl
  | cons p ps ih =>
    rw [List.map_cons, mergeLog, mergeLog, Pin.id_masked, Keyed.hasKey_map Pin.id_masked,
      ← Keyed.map_put Pin.id_masked, ih]

theorem duplicateLog_masked (owner : String) (direction : Direction) (seen : List String)
    (pins : List Pin) : duplicateLog owner direction seen (pins.map Pin.masked) =
      duplicateLog owner direction seen pins := by
  induction pins generalizing seen with
  | nil => rfl
  | cons p ps ih => rw [List.map_cons, duplicateLog, duplicateLog, Pin.id_masked, ih]

theorem own_masked (d : Descriptor) (inherited : Effective) :
    own d.masked inherited.masked = (own d inherited).masked := by
  simp only [own, masked, Descriptor.masked, merge_masked]

theorem duplicates_masked (r : Registry) (i : DescriptorId) :
    duplicates r.masked i = duplicates r i := by
  simp only [duplicates, Registry.get_masked, Registry.label_masked, Descriptor.masked,
    duplicateLog_masked]

theorem ownLog_masked (r : Registry) (i : DescriptorId) (inherited : Effective) :
    ownLog r.masked i inherited.masked = ownLog r i inherited := by
  simp only [ownLog, duplicates_masked, Registry.get_masked, Registry.label_masked,
    Registry.label_masked_eq, own_masked, outputIds_masked, inputIds_masked]
  simp only [masked, Descriptor.masked, mergeLog_masked]
  rfl

theorem cycleFrom_masked (r : Registry) (path : List DescriptorId) (i : DescriptorId) :
    cycleFrom r.masked path i = cycleFrom r path i := by
  rw [cycleFrom, cycleFrom, Registry.label_masked_eq]

/-! ### Visits -/

/-- The references of a module in turn, given what visits of single modules on this path do. -/
theorem visitParents_masked
    (hvisit : ∀ memo p, visit r.masked path memo.masked p = (visit r path memo p).masked)
    (memo : Memo) (merged : Effective) (ps : List DescriptorId) :
    visitParents r.masked path memo.masked merged.masked ps =
      (visitParents r path memo merged ps).masked := by
  induction ps generalizing memo merged with
  | nil => rw [visitParents_nil, visitParents_nil]; rfl
  | cons p ps ih =>
    cases hout : (visit r path memo p).outcome with
    | error labels =>
      have hmasked : (visit r.masked path memo.masked p).outcome = .error labels := by
        rw [hvisit, Visit.masked, hout]; rfl
      rw [visitParents_of_error _ ps hout, visitParents_of_error _ ps hmasked, hvisit]
      rfl
    | ok e =>
      have hmasked : (visit r.masked path memo.masked p).outcome = .ok e.masked := by
        rw [hvisit, Visit.masked, hout]; rfl
      rw [visitParents_of_ok _ ps hout, visitParents_of_ok _ ps hmasked, hvisit,
        mergeWith_masked]
      dsimp only [Visit.masked]
      rw [ih, Registry.label_masked]
      simp only [Visit.masked, masked, mergeLog_masked]

/-- **A visit** of a masked registry gives what it gives of the plain one, masked. The induction is
on the number of modules that are not on the path. -/
theorem visit_masked (r : Registry) (path : List DescriptorId) (memo : Memo) (i : DescriptorId) :
    visit r.masked path memo.masked i = (visit r path memo i).masked := by
  induction hn : unvisited r path using Nat.strong_induction_on generalizing path memo i with
  | _ n ih =>
    cases hlookup : memo.lookup i with
    | some e =>
      have hmasked : memo.masked.lookup i = some e.masked := by
        rw [memo.lookup_masked, hlookup]; rfl
      rw [visit_of_lookup hlookup, visit_of_lookup hmasked]
      rfl
    | none =>
      have hmasked : memo.masked.lookup i = none := by rw [memo.lookup_masked, hlookup]; rfl
      rcases Nat.lt_or_ge i r.length with hi | hi
      · have hi' : i < r.masked.length := by rwa [r.length_masked]
        cases hfresh : path.contains i with
        | true =>
          rw [visit_of_mem hlookup hi hfresh, visit_of_mem hmasked hi' hfresh, cycleFrom_masked]
          rfl
        | false =>
          have hless := unvisited_lt hi hfresh
          have hdescend : descend r.masked path memo.masked i = (descend r path memo i).masked := by
            rw [descend, descend, Registry.get_masked]
            exact visitParents_masked (fun memo p => ih _ (hn ▸ hless) (path ++ [i]) memo p rfl)
              memo ⟨[], []⟩ (r.get i).parents
          cases hout : (descend r path memo i).outcome with
          | error labels =>
            have hout' : (descend r.masked path memo.masked i).outcome = .error labels := by
              rw [hdescend, Visit.masked, hout]; rfl
            rw [visit_of_error hlookup hi hfresh hout, visit_of_error hmasked hi' hfresh hout',
              hdescend]
            rfl
          | ok e =>
            have hout' : (descend r.masked path memo.masked i).outcome = .ok e.masked := by
              rw [hdescend, Visit.masked, hout]; rfl
            rw [visit_of_ok hlookup hi hfresh hout, visit_of_ok hmasked hi' hfresh hout', hdescend,
              Registry.get_masked, own_masked, ownLog_masked]
            rfl
      · rw [visit_of_length_le hlookup hi, visit_of_length_le hmasked (by rwa [r.length_masked])]
        rfl

theorem resolve_masked (r : Registry) (i : DescriptorId) :
    resolve r.masked [] i = (resolve r [] i).masked := by
  have hvisit : visit r.masked [] [] i = (visit r [] [] i).masked := visit_masked r [] [] i
  rw [resolve, resolve, hvisit]
  obtain ⟨outcome, memo, log⟩ := visit r [] [] i
  cases outcome with
  | error labels => rfl
  | ok e => simp only [Visit.masked, Except.map, attach_masked]

end Resolver

/-! ### Documents -/

/-- The project without the secrets of its descriptor. -/
def Project.masked (p : Project) : Project := { p with descriptor := p.descriptor.masked }

namespace Workspace

/-- The workspace without the secrets of its projects. -/
def masked (w : Workspace) : Workspace := { w with projects := w.projects.map Project.masked }

variable (w : Workspace)

theorem registry_masked : w.masked.registry = w.registry.masked := by
  simp [registry, masked, Registry.masked, Project.masked, Function.comp_def]

theorem position?_masked (address : String) : w.masked.position? address = w.position? address := by
  simp only [position?, masked, List.findIdx?_map, Function.comp_def]
  rfl

theorem find?_masked (address : String) :
    w.masked.find? address = (w.find? address).map Project.masked := by
  simp only [find?, masked, List.find?_map, Function.comp_def]
  rfl

theorem normalize_masked (address : String) : w.masked.normalize address = w.normalize address := rfl

theorem get_masked (address : String) :
    w.masked.get address = (w.get address).map Project.masked := by
  rw [get, get, normalize_masked, find?_masked]
  cases w.find? (w.normalize address) <;> rfl

theorem renderingOf_masked (p : Project) :
    w.masked.renderingOf p.masked = ((w.renderingOf p).1.map Document.masked,
      (w.renderingOf p).2) := by
  have henabled : p.masked.descriptor.enabled = p.descriptor.enabled := rfl
  have haddress : p.masked.address = p.address := rfl
  rw [renderingOf, renderingOf, henabled, haddress, registry_masked, position?_masked,
    Resolver.resolve_masked]
  cases p.descriptor.enabled with
  | false => rfl
  | true =>
    obtain ⟨outcome, memo, log⟩ := Resolver.resolve w.registry [] ((w.position? p.address).getD 0)
    cases outcome <;> rfl

/-- **The document** of a masked workspace is the plain one, masked, and making it is reported in
the same way. -/
theorem rendering_masked (address : String) : w.masked.rendering address =
    ((w.rendering address).1.map Document.masked, (w.rendering address).2) := by
  have hconfigured : w.masked.requireConfigured = w.requireConfigured := rfl
  rw [rendering, rendering, get_masked, hconfigured]
  cases w.requireConfigured with
  | error f => rfl
  | ok u =>
    cases w.get address with
    | error f => rfl
    | ok p => exact w.renderingOf_masked p

end Workspace

end ModulePins
