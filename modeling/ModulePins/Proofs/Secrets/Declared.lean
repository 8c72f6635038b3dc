import ModulePins.Proofs.Keyed
import ModulePins.Proofs.ModuleFile.Replay
import ModulePins.Proofs.Secrets.Masked

/-!
# Declaring without secrets

Declarations pass secrets on without looking at them: making masked declarations on a masked
descriptor gives what the plain ones give, masked, with the same records and the same fault. So
nothing that is reported on the way depends on a secret.

The pins of the catalog come into a descriptor as they are. That does no harm, because there is
nothing in the catalog to mask.

## Main results

* `Catalog.masked_of_require` — the catalog has no secrets
* `Pin.editAll_masked` — edits
* `ModuleFile.apply_masked` — all declarations of a module file
-/

namespace ModulePins

/-! ### Properties and pins -/

theorem Property.declare_masked (p : Property) (ps : List Property) :
    p.masked.declare (ps.map masked) = (p.declare ps).map masked :=
  (Keyed.map_put key_masked p ps).symm

theorem Property.declarationLog_masked (p : Property) (ps : List Property) :
    p.masked.declarationLog (ps.map masked) = p.declarationLog ps := by
  rw [declarationLog, declarationLog, key_masked, Keyed.hasKey_map key_masked]

namespace Pin

theorem edit_masked (p : Pin) (e : PinEdit) :
    p.masked.edit e.masked = ((p.edit e).1.masked, (p.edit e).2) := by
  cases e with
  | require b => rfl
  | property q | propertyRow q =>
    simp only [PinEdit.masked, edit, Pin.declare, masked, Property.declare_masked,
      Property.declarationLog_masked]

theorem foldl_edit_masked (p : Pin) (es : List PinEdit) (log : List Record) :
    (es.map PinEdit.masked).foldl (fun acc e =>
      let (q, log) := acc.1.edit e
      (q, acc.2 ++ log)) (p.masked, log) =
    (fun acc : Pin × List Record => (acc.1.masked, acc.2)) (es.foldl (fun acc e =>
      let (q, log) := acc.1.edit e
      (q, acc.2 ++ log)) (p, log)) := by
  induction es generalizing p log with
  | nil => rfl
  | cons e es ih =>
    rw [List.map_cons, List.foldl_cons, List.foldl_cons, edit_masked]
    exact ih _ _

/-- **Edits** pass secrets on. -/
theorem editAll_masked (p : Pin) (es : List PinEdit) :
    p.masked.editAll (es.map PinEdit.masked) = ((p.editAll es).1.masked, (p.editAll es).2) :=
  foldl_edit_masked p es []

theorem editInput_masked (p : Pin) (e : PinEdit) :
    p.masked.editInput e.masked = (p.editInput e).map masked := by
  cases e <;> rfl

theorem foldlM_editInput_masked (p : Pin) (es : List PinEdit) :
    (es.map PinEdit.masked).foldlM editInput p.masked = (es.foldlM editInput p).map masked := by
  induction es generalizing p with
  | nil => rfl
  | cons e es ih =>
    rw [List.map_cons, List.foldlM_cons, List.foldlM_cons, editInput_masked]
    cases p.editInput e with
    | error f => rfl
    | ok q => exact ih q

end Pin

/-- **The catalog has no secrets.** -/
theorem Catalog.masked_of_require {mnemonic : String} {p : Pin} (h : require mnemonic = .ok p) :
    p.masked = p := by
  have hentries : ∀ e ∈ entries, e.2.masked = e.2 := by decide
  rw [require, lookup?] at h
  split at h
  · rename_i q hq
    cases h
    obtain ⟨before, after, hmem, -⟩ := List.lookup_eq_some_iff.mp hq
    exact hentries (mnemonic, p) (hmem ▸ List.mem_append_right _ List.mem_cons_self)
  · cases h

/-! ### Descriptors -/

namespace Descriptor

/-- The outcome of a declaration without secrets. -/
def Declared.masked (d : Declared) : Declared := (d.1.masked, d.2)

variable (d : Descriptor) (id mnemonic : String) (es : List PinEdit)

theorem declareProperty_masked (p : Property) :
    d.masked.declareProperty p.masked = Declared.masked (d.declareProperty p) := by
  simp only [declareProperty, masked, Property.declare_masked, Property.declarationLog_masked,
    Declared.masked]

theorem declareOutput_masked :
    d.masked.declareOutput id (es.map PinEdit.masked) = Declared.masked (d.declareOutput id es) := by
  have hedit : (Pin.mk id false []).editAll (es.map PinEdit.masked) = _ :=
    Pin.editAll_masked (Pin.mk id false []) es
  simp only [declareOutput, hedit, masked, Declared.masked, List.map_append]
  simp [Pin.masked]

theorem declareStandardOutput_masked :
    d.masked.declareStandardOutput mnemonic (es.map PinEdit.masked) =
      (d.declareStandardOutput mnemonic es).map Declared.masked := by
  rw [declareStandardOutput, declareStandardOutput]
  cases hbase : Catalog.require mnemonic with
  | error f => rfl
  | ok base =>
    have hedit := Pin.editAll_masked base es
    rw [Catalog.masked_of_require hbase] at hedit
    simp only [bind, Except.bind, hedit, pure, Except.pure, Except.map, masked, Declared.masked,
      List.map_append, List.map_cons, List.map_nil, Pin.id_masked]

theorem declareInput_masked :
    d.masked.declareInput id (es.map PinEdit.masked) =
      (d.declareInput id es).map Declared.masked := by
  have hedit : (es.map PinEdit.masked).foldlM Pin.editInput (Pin.mk id true []) = _ :=
    Pin.foldlM_editInput_masked (Pin.mk id true []) es
  rw [declareInput, declareInput, hedit]
  cases es.foldlM Pin.editInput (Pin.mk id true []) with
  | error f => rfl
  | ok p =>
    simp [bind, Except.bind, pure, Except.pure, Except.map, masked, Declared.masked, Pin.masked]

theorem declareStandardInput_masked :
    d.masked.declareStandardInput mnemonic (es.map PinEdit.masked) =
      (d.declareStandardInput mnemonic es).map Declared.masked := by
  rw [declareStandardInput, declareStandardInput]
  cases Catalog.require mnemonic with
  | error f => rfl
  | ok base =>
    have hedit : (es.map PinEdit.masked).foldlM Pin.editInput (Pin.mk base.id base.required []) = _ :=
      Pin.foldlM_editInput_masked (Pin.mk base.id base.required []) es
    simp only [bind, Except.bind] at hedit ⊢
    rw [hedit]
    cases es.foldlM Pin.editInput (Pin.mk base.id base.required []) with
    | error f => rfl
    | ok p => simp [pure, Except.pure, Except.map, masked, Declared.masked, Pin.masked]

end Descriptor

/-! ### Module files -/

namespace ModuleFile

open Descriptor

theorem edits_masked (p : PinDeclaration) : edits p.masked = (edits p).map PinEdit.masked := by
  cases h : p.required <;> simp [edits, PinDeclaration.masked, h, PinEdit.masked]

theorem name_masked (p : PinDeclaration) : p.masked.name = p.name := rfl

theorem replayOutput_masked (d : Descriptor) (p : PinDeclaration) :
    replayOutput d.masked p.masked = (replayOutput d p).map Declared.masked := by
  rw [replayOutput, replayOutput, edits_masked, name_masked]
  cases p.name with
  | custom id => exact congrArg Except.ok (declareOutput_masked d id _)
  | standard m => exact declareStandardOutput_masked d m _

theorem replayInput_masked (d : Descriptor) (p : PinDeclaration) :
    replayInput d.masked p.masked = (replayInput d p).map Declared.masked := by
  rw [replayInput, replayInput, edits_masked, name_masked]
  cases p.name with
  | custom id => exact declareInput_masked d id _
  | standard m => exact declareStandardInput_masked d m _

/-- The outcome of a replay without secrets. -/
def Replayed.masked (r : Replayed) : Replayed := { r with descriptor := r.descriptor.masked }

theorem Replayed.fault_masked (r : Replayed) : r.masked.fault = r.fault := rfl

theorem replayAll_masked {α : Type} {declare : Descriptor → α → Except Fault Declared} {g : α → α}
    (h : ∀ d a, declare d.masked (g a) = (declare d a).map Declared.masked) (d : Descriptor)
    (as : List α) : replayAll declare d.masked (as.map g) = (replayAll declare d as).masked := by
  induction as generalizing d with
  | nil => rfl
  | cons a as ih =>
    rw [List.map_cons, replayAll, replayAll, h]
    cases declare d a with
    | error f => rfl
    | ok declared =>
      obtain ⟨d', log⟩ := declared
      simp only [Except.map, Declared.masked, ih]
      rfl

theorem Replayed.andThen_masked {r : Replayed} {next next' : Descriptor → Replayed}
    (h : ∀ d, next' d.masked = (next d).masked) :
    r.masked.andThen next' = (r.andThen next).masked := by
  rw [andThen, andThen, fault_masked]
  cases r.fault with
  | some f => rfl
  | none =>
    dsimp only
    rw [Replayed.masked, h]
    rfl

theorem declareAll_masked (decl : DescriptorDeclaration) (d : Descriptor) :
    declareAll decl.masked d.masked = (declareAll decl d).masked := by
  have hproperties :
      replayAll (fun d p => .ok (d.declareProperty p)) d.masked decl.masked.properties =
        (replayAll (fun d p => .ok (d.declareProperty p)) d decl.properties).masked :=
    replayAll_masked (fun d p => congrArg Except.ok (declareProperty_masked d p)) d decl.properties
  have houtputs (d : Descriptor) : (fun d => replayAll replayOutput d decl.masked.outputs) d.masked =
      ((fun d => replayAll replayOutput d decl.outputs) d).masked :=
    replayAll_masked replayOutput_masked d decl.outputs
  have hinputs (d : Descriptor) : (fun d => replayAll replayInput d decl.masked.inputs) d.masked =
      ((fun d => replayAll replayInput d decl.inputs) d).masked :=
    replayAll_masked replayInput_masked d decl.inputs
  rw [declareAll, declareAll, hproperties, Replayed.andThen_masked houtputs,
    Replayed.andThen_masked hinputs]

theorem replay_masked (decl : DescriptorDeclaration) (d : Descriptor) :
    replay decl.masked d.masked = (replay decl d).masked := by
  have hall : declareAll decl.masked (titled decl.masked d.masked) = _ :=
    declareAll_masked decl (titled decl d)
  have hrecord : replayedRecord (titled decl.masked d.masked) decl.masked =
      replayedRecord (titled decl d) decl := by
    simp only [replayedRecord, titled, DescriptorDeclaration.masked, Descriptor.masked,
      List.length_map]
    rfl
  rw [replay_eq, replay_eq, hall, hrecord]
  obtain ⟨declared, log, fault⟩ := declareAll decl (titled decl d)
  cases fault <;> rfl

theorem descriptor_masked (m : ModuleFile) :
    m.masked.descriptor = m.descriptor.map DescriptorDeclaration.masked := rfl

/-- **The declarations of a module file** pass secrets on. -/
theorem apply_masked (m : ModuleFile) (d : Descriptor) :
    m.masked.apply d.masked = (m.apply d).masked := by
  rw [apply, apply, descriptor_masked]
  cases m.descriptor with
  | none => rfl
  | some decl => exact replay_masked decl d

end ModuleFile

end ModulePins
