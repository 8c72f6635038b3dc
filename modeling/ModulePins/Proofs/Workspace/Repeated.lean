import ModulePins.Proofs.ModuleFile.Repeated
import ModulePins.Proofs.Workspace.Dependence

/-!
# Workspaces that differ in repetitions

Two workspaces with the same modules at the same positions, where a module of the one may have its
pins and its references behind what is left of earlier attempts to set it up. Whatever is rendered is
the same: resolution does not see the repetitions, and the rest of a document has none.

## Main definitions

* `Project.Repeats`, `Workspace.Repeats` — the same, but for repetitions

## Main results

* `Workspace.Repeats.rendering` — documents are the same
-/

namespace ModulePins

open List (Forall₂)

/-- The same module, but for repetitions of what it declares. -/
structure Project.Repeats (p q : Project) : Prop where
  rest : q = { p with descriptor := q.descriptor }
  descriptor : Descriptor.Repeats p.descriptor q.descriptor

theorem Project.Repeats.address {p q : Project} (h : p.Repeats q) : q.address = p.address := by
  rw [h.rest]

theorem Project.Repeats.coordinate {p q : Project} (h : p.Repeats q) :
    q.coordinate = p.coordinate := by
  rw [h.rest]
  rfl

namespace Workspace

variable {v w : Workspace} {ps qs : List Project} {p q : Project} {a : String}

/-- The same modules at the same positions, but for repetitions of what they declare. -/
structure Repeats (v w : Workspace) : Prop where
  settings : w.settings = v.settings
  configured : w.configured = v.configured
  projects : Forall₂ Project.Repeats v.projects w.projects

theorem registry_repeats (h : Forall₂ Project.Repeats ps qs) :
    Registry.Repeats (ps.map Project.descriptor) (qs.map Project.descriptor) := by
  refine ⟨by simp [h.length_eq], fun i => ?_⟩
  induction h generalizing i with
  | nil => exact ⟨rfl, rfl, rfl, rfl, rfl, ⟨[], .none, rfl⟩, ⟨[], .none, rfl⟩, ⟨[], .none, rfl⟩⟩
  | cons hpq _ ih =>
    cases i with
    | zero => exact hpq.descriptor
    | succ i => exact ih i

theorem find?_repeats (h : Forall₂ Project.Repeats ps qs) (a : String) :
    Option.Rel Project.Repeats (ps.find? fun p => p.address = a) (qs.find? fun p => p.address = a) := by
  induction h with
  | nil => exact .none
  | cons hpq _ ih =>
    rw [List.find?_cons, List.find?_cons, hpq.address]
    split
    · exact .some hpq
    · exact ih

theorem addresses_repeats (h : Forall₂ Project.Repeats ps qs) :
    qs.map Project.address = ps.map Project.address := by
  induction h with
  | nil => rfl
  | cons hpq _ ih => rw [List.map_cons, List.map_cons, hpq.address, ih]

theorem Repeats.position?_eq (h : Repeats v w) : w.position? a = v.position? a := by
  rw [position?_eq_findIdx?, position?_eq_findIdx?, addresses, addresses, addresses_repeats h.projects]

theorem Repeats.normalize_eq (h : Repeats v w) : w.normalize = v.normalize :=
  funext fun a => by rw [normalize, normalize, h.settings]

/-- At an address there is the same module, but for repetitions, or none. -/
theorem Repeats.get (h : Repeats v w) (a : String) :
    (∃ p q, v.get a = .ok p ∧ w.get a = .ok q ∧ p.Repeats q) ∨
      ∃ f, v.get a = .error f ∧ w.get a = .error f := by
  have hfind := find?_repeats h.projects (v.normalize a)
  rw [Workspace.get, Workspace.get, h.normalize_eq, find?, find?]
  generalize v.projects.find? _ = p? at hfind
  generalize w.projects.find? _ = q? at hfind
  cases hfind with
  | some hpq => exact .inl ⟨_, _, rfl, rfl, hpq⟩
  | none => exact .inr ⟨_, rfl, rfl⟩

theorem Repeats.get_coordinate (h : Repeats v w) (a : String) :
    (w.get a).map Project.coordinate = (v.get a).map Project.coordinate := by
  rcases h.get a with ⟨p, q, hp, hq, hpq⟩ | ⟨f, hv, hw⟩
  · rw [hp, hq]
    exact congrArg Except.ok hpq.coordinate
  · rw [hv, hw]

theorem Repeats.renderingOf (h : Repeats v w) (hpq : p.Repeats q) :
    (w.renderingOf q).1 = (v.renderingOf p).1 := by
  have hdocument : w.documentOf q = v.documentOf p := by
    funext pins
    simp [documentOf, h.settings, hpq.coordinate, hpq.descriptor.moduleId,
      hpq.descriptor.displayName, hpq.descriptor.description, hpq.descriptor.properties]
  have hresolve := (registry_repeats h.projects).outcome_resolve ((v.position? p.address).getD 0)
  rw [Workspace.renderingOf, Workspace.renderingOf, hdocument, hpq.address, h.position?_eq, registry,
    registry, Descriptor.enabled, Descriptor.enabled, hpq.descriptor.moduleId, hpq.descriptor.name]
  split
  · exact congrArg (fun outcome => (outcome.mapError Fault.inheritanceCycle).map (v.documentOf p))
      hresolve
  · rfl

/-- **Documents are the same.** -/
theorem Repeats.rendering (h : Repeats v w) (a : String) :
    (w.rendering a).1 = (v.rendering a).1 := by
  have hready : w.requireConfigured = v.requireConfigured := by
    rw [requireConfigured, requireConfigured, h.configured]
  rw [Workspace.rendering, Workspace.rendering, hready]
  cases v.requireConfigured with
  | error f => rfl
  | ok u =>
    rcases h.get a with ⟨p, q, hp, hq, hpq⟩ | ⟨f, hv, hw⟩
    · rw [hp, hq]
      exact h.renderingOf hpq
    · rw [hv, hw]

end Workspace

end ModulePins
