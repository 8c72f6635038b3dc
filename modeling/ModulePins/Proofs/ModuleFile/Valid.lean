import ModulePins.Proofs.Except
import ModulePins.Proofs.ModuleFile.Contents
import ModulePins.Proofs.ModuleFile.Pins

/-!
# Valid module files

What a module file that has passed its check can still fail with when its declarations are made. Its
input pins have no properties, since the schema has no field for them, and so all that can be wrong
is a mnemonic that is not in the catalog.

## Main definitions

* `ModuleFile.mnemonics` — the standard pins that a module file names
* `ModuleFile.Clean` — no input pin has properties

## Main results

* `ModuleFile.clean_of_contents` — a module file that has been read is clean
* `ModuleFile.fault_apply_eq_none_iff` — the declarations of a clean module file can be made exactly
  if its mnemonics are in the catalog
-/

namespace ModulePins

/-! ### Checks that pass -/

namespace Checked

variable {α β : Type} {a : α} {b : β} {f : Checked (α → β)} {x : Checked α}

theorem map_eq_pass_iff {g : α → β} : g <$> x = .pass b ↔ ∃ a, x = .pass a ∧ g a = b := by
  change Seq.seq (pure g) (fun _ => x) = .pass b ↔ _
  change both (.pass g) x = .pass b ↔ _
  cases x <;> simp [both]

theorem seq_eq_pass_iff : f <*> x = .pass b ↔ ∃ g a, f = .pass g ∧ x = .pass a ∧ g a = b := by
  change both f x = .pass b ↔ _
  cases f <;> cases x <;> simp [both]

theorem seqLeft_eq_pass_iff {y : Checked β} : x <* y = .pass a ↔ x = .pass a ∧ ∃ b, y = .pass b := by
  change Function.const β <$> x <*> y = .pass a ↔ _
  rw [seq_eq_pass_iff]
  constructor
  · rintro ⟨g, b, hg, hb, rfl⟩
    obtain ⟨a, ha, rfl⟩ := map_eq_pass_iff.mp hg
    exact ⟨ha, b, hb⟩
  · rintro ⟨ha, b, hb⟩
    exact ⟨_, b, map_eq_pass_iff.mpr ⟨a, ha, rfl⟩, hb, rfl⟩

theorem within_eq_pass_iff {step : String} : x.within step = .pass a ↔ x = .pass a := by
  cases x <;> simp [within]

theorem andThen_eq_pass_iff {g : α → Checked β} :
    x.andThen g = .pass b ↔ ∃ a, x = .pass a ∧ g a = .pass b := by
  cases x <;> simp [andThen]

/-- What all elements of a list have that passes. -/
theorem forall_of_elements {check : α → Checked β} {P : β → Prop}
    (h : ∀ a b, check a = .pass b → P b) {n : ℕ} {as : List α} {bs : List β}
    (hpass : elements check n as = .pass bs) : ∀ b ∈ bs, P b := by
  induction as generalizing n bs with
  | nil =>
    cases hpass
    simp
  | cons a as ih =>
    rw [elements] at hpass
    obtain ⟨g, bs', hg, hbs', rfl⟩ := seq_eq_pass_iff.mp hpass
    cases hcheck : check a with
    | fail issues =>
      rw [hcheck] at hg
      cases hg
    | pass b =>
      rw [hcheck] at hg
      cases hg
      exact List.forall_mem_cons.mpr ⟨h a b hcheck, ih hbs'⟩

end Checked

namespace Schema

open Checked

variable {α : Type} {check : Value → Checked α} {P : α → Prop} {es : Members} {v : Value}

theorem forall_of_listOf (h : ∀ v a, check v = .pass a → P a) {as : List α}
    (hpass : listOf check v = .pass as) : ∀ a ∈ as, P a := by
  unfold listOf at hpass
  split at hpass
  · exact forall_of_elements h hpass
  · exact forall_of_elements h hpass
  · exact forall_of_elements h hpass
  · cases hpass

theorem of_record {name : String} {check : Members → Checked α} {a : α}
    (hpass : record name check v = .pass a) : ∃ es, check es = .pass a := by
  unfold record at hpass
  split at hpass
  · exact ⟨_, hpass⟩
  · cases hpass

/-- A field that passes has its default or a value that passes. -/
theorem of_field {names : List String} {default a : α} (hdefault : P default)
    (h : ∀ v a, check v = .pass a → P a) (hpass : field names check default es = .pass a) : P a := by
  rw [field] at hpass
  split at hpass
  · exact h _ a (within_eq_pass_iff.mp hpass)
  · cases hpass
    exact hdefault

theorem of_orNull {o : Option α} (h : ∀ v a, check v = .pass a → P a)
    (hpass : orNull check v = .pass o) : ∀ a ∈ o, P a := by
  unfold orNull at hpass
  split at hpass
  · cases hpass
    simp
  · cases hcheck : check v with
    | fail issues =>
      rw [hcheck] at hpass
      cases hpass
    | pass a =>
      rw [hcheck] at hpass
      cases hpass
      simpa using h v a hcheck

end Schema

namespace ModuleFile

open Checked Schema

variable {m : ModuleFile} {decl : DescriptorDeclaration} {p : PinDeclaration} {v : Value}
  {es : Members} {d : Descriptor}

/-- No input pin has properties. -/
def Clean (m : ModuleFile) : Prop :=
  ∀ decl ∈ m.descriptor, ∀ p ∈ decl.inputs, p.properties = []

/-- The input pins that the schema lets pass have no properties. -/
theorem properties_of_inputPin (h : inputPin v = .pass p) : p.properties = [] := by
  obtain ⟨es, h⟩ := of_record h
  rw [pinWith] at h
  obtain ⟨fields, hfields, hname⟩ := andThen_eq_pass_iff.mp h
  obtain ⟨hfields, -⟩ := seqLeft_eq_pass_iff.mp hfields
  obtain ⟨g₁, properties, h₁, hproperties, rfl⟩ := seq_eq_pass_iff.mp hfields
  obtain ⟨g₂, required, h₂, -, rfl⟩ := seq_eq_pass_iff.mp h₁
  obtain ⟨g₃, mnemonic, h₃, -, rfl⟩ := seq_eq_pass_iff.mp h₂
  obtain ⟨id, -, rfl⟩ := map_eq_pass_iff.mp h₃
  cases hproperties
  change Checked.map _ (pinName id mnemonic) = .pass p at hname
  cases hchecked : pinName id mnemonic with
  | fail issues =>
    rw [hchecked] at hname
    cases hname
  | pass name =>
    rw [hchecked] at hname
    cases hname
    rfl

theorem properties_of_descriptorDeclaration (h : descriptorDeclaration v = .pass decl) :
    ∀ p ∈ decl.inputs, p.properties = [] := by
  obtain ⟨es, h⟩ := of_record h
  obtain ⟨h, -⟩ := seqLeft_eq_pass_iff.mp h
  obtain ⟨g₁, inputs, h₁, hinputs, rfl⟩ := seq_eq_pass_iff.mp h
  have hall : ∀ p ∈ inputs, p.properties = [] :=
    of_field (P := fun ps : List PinDeclaration => ∀ p ∈ ps, p.properties = []) (by simp)
      (fun v ps hps => forall_of_listOf (fun _ _ => properties_of_inputPin) hps) hinputs
  obtain ⟨g₂, outputs, h₂, -, rfl⟩ := seq_eq_pass_iff.mp h₁
  obtain ⟨g₃, properties, h₃, -, rfl⟩ := seq_eq_pass_iff.mp h₂
  obtain ⟨g₄, inheritsFrom, h₄, -, rfl⟩ := seq_eq_pass_iff.mp h₃
  obtain ⟨g₅, description, h₅, -, rfl⟩ := seq_eq_pass_iff.mp h₄
  obtain ⟨g₆, displayName, h₆, -, rfl⟩ := seq_eq_pass_iff.mp h₅
  obtain ⟨moduleId, -, rfl⟩ := map_eq_pass_iff.mp h₆
  exact hall

theorem clean_of_check (h : check es = .pass m) : m.Clean := by
  obtain ⟨h, -⟩ := seqLeft_eq_pass_iff.mp h
  obtain ⟨g₁, decl?, h₁, hdecl, rfl⟩ := seq_eq_pass_iff.mp h
  have hall : ∀ decl ∈ decl?, ∀ p ∈ decl.inputs, p.properties = [] :=
    of_field (P := fun o : Option DescriptorDeclaration =>
      ∀ decl ∈ o, ∀ p ∈ decl.inputs, p.properties = []) (by simp)
      (fun v o ho => of_orNull (fun _ _ => properties_of_descriptorDeclaration) ho) hdecl
  obtain ⟨g₂, version, h₂, -, rfl⟩ := seq_eq_pass_iff.mp h₁
  obtain ⟨g₃, name, h₃, -, rfl⟩ := seq_eq_pass_iff.mp h₂
  obtain ⟨group, -, rfl⟩ := map_eq_pass_iff.mp h₃
  exact hall

/-- **A module file that has been read is clean.** -/
theorem clean_of_contents {files : FileStore} {path : Path} (h : contents files path = .ok m) :
    m.Clean := by
  rw [contents] at h
  split at h
  · cases h
  · cases h
  · obtain ⟨es, -, hvalid⟩ := Except.bind_eq_ok_iff.mp h
    rw [validate] at hvalid
    cases hcheck : check es with
    | pass m' =>
      rw [hcheck] at hvalid
      cases hvalid
      exact clean_of_check hcheck
    | fail issues =>
      rw [hcheck] at hvalid
      cases hvalid

/-! ### Making declarations -/

/-- The standard pins that a declaration names. -/
def mnemonicsOf (decl : DescriptorDeclaration) : List String :=
  (decl.outputs ++ decl.inputs).filterMap fun p =>
    match p.name with
    | .standard mnemonic => some mnemonic
    | .custom _ => none

/-- The standard pins that a module file names. -/
def mnemonics (m : ModuleFile) : List String := (m.descriptor.map mnemonicsOf).getD []

/-- **The declarations of a clean module file** can be made exactly if the standard pins that it
names are in the catalog. -/
theorem fault_apply_eq_none_iff (hclean : m.Clean) (d : Descriptor) :
    (m.apply d).fault = none ↔ ∀ mnemonic ∈ m.mnemonics, (Catalog.lookup? mnemonic).isSome := by
  rw [apply, mnemonics]
  cases hdecl : m.descriptor with
  | none => simp
  | some decl =>
    dsimp only
    rw [fault_replay (hclean decl hdecl), unknown?_eq_none_iff]
    rfl

end ModuleFile

end ModulePins
