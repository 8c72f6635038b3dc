import ModulePins.ModuleFile.Load
import ModulePins.Proofs.Except

/-!
# What declarations leave alone

The declarations of a module file go into the pins, the properties and the texts of a descriptor.
They do not rename it, and they do not touch its references to other descriptors, which are made
later.

## Main definitions

* `Descriptor.SameLinks` — the same name and the same references

## Main results

* `ModuleFile.replayAll_induction` — what each declaration keeps, a series of them keeps
* `ModuleFile.apply_sameLinks`
-/

namespace ModulePins

/-- The same name and the same references. -/
structure Descriptor.SameLinks (d d' : Descriptor) : Prop where
  name : d'.name = d.name
  parents : d'.parents = d.parents

namespace ModuleFile

open Descriptor

variable {d₀ d : Descriptor} {P : Descriptor → Prop}

/-- What each declaration keeps, a series of them keeps, however far it comes. -/
theorem replayAll_induction {α : Type} {declare : Descriptor → α → Except Fault Declared}
    (hstep : ∀ {d a d' log}, P d → declare d a = .ok (d', log) → P d') (hd : P d) (as : List α) :
    P (replayAll declare d as).descriptor := by
  induction as generalizing d with
  | nil => exact hd
  | cons a as ih =>
    rw [replayAll]
    cases hdeclare : declare d a with
    | error f => exact hd
    | ok declared => exact ih (hstep hd hdeclare)

theorem Replayed.andThen_induction {r : Replayed} {next : Descriptor → Replayed}
    (hr : P r.descriptor) (hnext : ∀ d, P d → P (next d).descriptor) :
    P (r.andThen next).descriptor := by
  rw [Replayed.andThen]
  cases r.fault with
  | some f => exact hr
  | none => exact hnext _ hr

theorem sameLinks_replayOutput {p : PinDeclaration} {d' : Descriptor} {log : List Record}
    (h : SameLinks d₀ d) (hdeclare : replayOutput d p = .ok (d', log)) : SameLinks d₀ d' := by
  rw [replayOutput] at hdeclare
  cases hname : p.name with
  | custom id =>
    rw [hname] at hdeclare
    cases hdeclare
    exact ⟨h.name, h.parents⟩
  | standard m =>
    rw [hname] at hdeclare
    obtain ⟨base, -, hrest⟩ := Except.bind_eq_ok_iff.mp hdeclare
    cases hrest
    exact ⟨h.name, h.parents⟩

theorem sameLinks_replayInput {p : PinDeclaration} {d' : Descriptor} {log : List Record}
    (h : SameLinks d₀ d) (hdeclare : replayInput d p = .ok (d', log)) : SameLinks d₀ d' := by
  rw [replayInput] at hdeclare
  cases hname : p.name with
  | custom id =>
    rw [hname] at hdeclare
    obtain ⟨edited, -, hrest⟩ := Except.bind_eq_ok_iff.mp hdeclare
    cases hrest
    exact ⟨h.name, h.parents⟩
  | standard m =>
    rw [hname] at hdeclare
    obtain ⟨base, -, hrest⟩ := Except.bind_eq_ok_iff.mp hdeclare
    obtain ⟨edited, -, hrest⟩ := Except.bind_eq_ok_iff.mp hrest
    cases hrest
    exact ⟨h.name, h.parents⟩

/-- The descriptor with the texts of a declaration. -/
def titled (decl : DescriptorDeclaration) (d : Descriptor) : Descriptor :=
  { d with
    moduleId := decl.moduleId, displayName := decl.displayName, description := decl.description }

/-- The properties and the pins of a declaration. -/
def declareAll (decl : DescriptorDeclaration) (d : Descriptor) : Replayed :=
  ((replayAll (fun d p => .ok (d.declareProperty p)) d decl.properties).andThen fun d =>
    replayAll replayOutput d decl.outputs).andThen fun d => replayAll replayInput d decl.inputs

theorem replay_eq (decl : DescriptorDeclaration) (d : Descriptor) : replay decl d =
    let r := declareAll decl (titled decl d)
    match r.fault with
    | some _ => r
    | none => { r with log := r.log ++ [replayedRecord (titled decl d) decl] } := rfl

theorem sameLinks_declareAll (decl : DescriptorDeclaration) (h : SameLinks d₀ d) :
    SameLinks d₀ (declareAll decl d).descriptor := by
  have hproperties : SameLinks d₀
      (replayAll (fun d p => .ok (d.declareProperty p)) d decl.properties).descriptor := by
    refine replayAll_induction (fun h hdeclare => ?_) h _
    cases hdeclare
    exact ⟨h.name, h.parents⟩
  have houtputs : SameLinks d₀ ((replayAll (fun d p => .ok (d.declareProperty p)) d
      decl.properties).andThen fun d => replayAll replayOutput d decl.outputs).descriptor :=
    Replayed.andThen_induction hproperties fun _ h =>
      replayAll_induction (fun h hdeclare => sameLinks_replayOutput h hdeclare) h decl.outputs
  exact Replayed.andThen_induction houtputs fun _ h =>
    replayAll_induction (fun h hdeclare => sameLinks_replayInput h hdeclare) h decl.inputs

theorem sameLinks_replay (decl : DescriptorDeclaration) (d : Descriptor) :
    SameLinks d (replay decl d).descriptor := by
  have hall : SameLinks d (declareAll decl (titled decl d)).descriptor :=
    sameLinks_declareAll decl ⟨rfl, rfl⟩
  rw [replay_eq]
  dsimp only
  split <;> exact hall

/-- **Declarations** keep the name and the references. -/
theorem apply_sameLinks (m : ModuleFile) (d : Descriptor) : SameLinks d (m.apply d).descriptor := by
  rw [apply]
  split
  · exact ⟨rfl, rfl⟩
  · exact sameLinks_replay _ d

end ModuleFile

end ModulePins
