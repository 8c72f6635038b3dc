import ModulePins.Descriptor.Document
import ModulePins.ModuleFile.Basic

/-!
# Masks

A sensitive default that says something is a secret. `Property.masked` is the property with the mask
in place of its secret, and the same is done to everything that has properties. Two things that are
the same when masked differ in secrets only: `Property.masked_eq_iff` says so of properties, and
nothing else has defaults.

A text that is to be masked is the plain text of the masked document, so masking changes nothing but
secrets.

## Main definitions

* `Property.masked`, `Pin.masked`, `Descriptor.masked`, `Document.masked` — what may be shown
* `ModuleFile.masked` — the declarations of a module file without their secrets

## Main results

* `Property.masked_eq_iff` — properties that differ in a secret at most
* `Document.text_masked` — the masked text of a document
-/

namespace ModulePins

namespace Property

/-- The property with the mask in place of its secret. -/
def masked (p : Property) : Property := { p with defaultValue := p.shownDefault }

@[simp] theorem key_masked (p : Property) : p.masked.key = p.key := rfl

theorem shownDefault_of_empty {p : Property} (h : p.defaultValue = "") : p.shownDefault = "" := by
  simp [shownDefault, h]

theorem shownDefault_of_secret {p : Property} (hsensitive : p.sensitive = true)
    (h : p.defaultValue ≠ "") : p.shownDefault = mask := by
  simp [shownDefault, hsensitive, h]

theorem shownDefault_of_open {p : Property} (h : p.sensitive = false) :
    p.shownDefault = p.defaultValue := by
  simp [shownDefault, h]

/-- A mask hides what the secret is, but not whether there is one. -/
theorem shownDefault_eq_iff {p q : Property} (h : q.sensitive = p.sensitive) :
    q.shownDefault = p.shownDefault ↔ q.defaultValue = p.defaultValue ∨
      p.sensitive = true ∧ p.defaultValue ≠ "" ∧ q.defaultValue ≠ "" := by
  cases hsensitive : p.sensitive with
  | false => simp [shownDefault_of_open, hsensitive, h]
  | true =>
    rw [hsensitive] at h
    by_cases hp : p.defaultValue = "" <;> by_cases hq : q.defaultValue = ""
    · simp [hp, hq, shownDefault_of_empty]
    · simp [hp, hq, shownDefault_of_empty, shownDefault_of_secret h hq, mask]
    · simp [hp, hq, shownDefault_of_empty, shownDefault_of_secret hsensitive hp, mask, Ne.symm hp]
    · simp [hp, hq, shownDefault_of_secret h hq, shownDefault_of_secret hsensitive hp]

/-- **Properties that are the same when masked** differ in a secret at most: the one has a sensitive
default that says something, and so has the other. -/
theorem masked_eq_iff {p q : Property} : q.masked = p.masked ↔
    ∃ value, q = { p with defaultValue := value } ∧ (value = p.defaultValue ∨
      p.sensitive = true ∧ p.defaultValue ≠ "" ∧ value ≠ "") := by
  constructor
  · intro h
    obtain ⟨k, r, s, d, e, t, v⟩ := p
    obtain ⟨k', r', s', d', e', t', v'⟩ := q
    simp only [masked, mk.injEq] at h
    obtain ⟨rfl, rfl, rfl, hdefault, rfl, rfl, rfl⟩ := h
    exact ⟨d', rfl, (shownDefault_eq_iff (p := ⟨k', r', s', d, e', t', v'⟩)
      (q := ⟨k', r', s', d', e', t', v'⟩) rfl).mp hdefault⟩
  · rintro ⟨value, rfl, h⟩
    have hdefault : shownDefault { p with defaultValue := value } = p.shownDefault :=
      (shownDefault_eq_iff (p := p) (q := { p with defaultValue := value }) rfl).mpr h
    simp only [masked, hdefault]

end Property

/-! ### Everything that has properties -/

/-- The pin without its secrets. -/
def Pin.masked (p : Pin) : Pin := { p with properties := p.properties.map Property.masked }

@[simp] theorem Pin.id_masked (p : Pin) : p.masked.id = p.id := rfl

/-- The pins without their secrets. -/
def Effective.masked (e : Effective) : Effective :=
  ⟨e.outputs.map Pin.masked, e.inputs.map Pin.masked⟩

/-- The descriptor without its secrets. -/
def Descriptor.masked (d : Descriptor) : Descriptor :=
  { d with
    outputs := d.outputs.map Pin.masked
    inputs := d.inputs.map Pin.masked
    properties := d.properties.map Property.masked }

/-- The descriptors without their secrets. -/
def Registry.masked (r : Registry) : Registry := r.map Descriptor.masked

/-- The edit without its secret. -/
def PinEdit.masked : PinEdit → PinEdit
  | require b => require b
  | property p => property p.masked
  | propertyRow p => propertyRow p.masked

/-- The declaration of a pin without its secrets. -/
def PinDeclaration.masked (p : PinDeclaration) : PinDeclaration :=
  { p with properties := p.properties.map Property.masked }

/-- The declarations without their secrets. -/
def DescriptorDeclaration.masked (d : DescriptorDeclaration) : DescriptorDeclaration :=
  { d with
    properties := d.properties.map Property.masked
    outputs := d.outputs.map PinDeclaration.masked
    inputs := d.inputs.map PinDeclaration.masked }

/-- The module file without its secrets. -/
def ModuleFile.masked (m : ModuleFile) : ModuleFile :=
  { m with descriptor := m.descriptor.map DescriptorDeclaration.masked }

namespace Document

/-- The document without its secrets. -/
def masked (d : Document) : Document :=
  { d with
    properties := d.properties.map Property.masked
    outputs := d.outputs.map Pin.masked
    inputs := d.inputs.map Pin.masked }

theorem output_masked (p : Pin) : output false p.masked = output true p := by
  simp [output, Pin.masked, Function.comp_def, pinProperty, shownDefault, Property.masked]

/-- **The masked text** of a document is the plain text of the document without its secrets. -/
theorem text_masked (d : Document) : d.text true = d.masked.text false := by
  have hproperties : (d.properties.map Property.masked).map (moduleProperty false) =
      d.properties.map (moduleProperty true) := by
    rw [List.map_map]
    exact List.map_congr_left fun p _ => rfl
  have houtputs : (d.outputs.map Pin.masked).map (output false) = d.outputs.map (output true) := by
    rw [List.map_map]
    exact List.map_congr_left fun p _ => output_masked p
  have hinputs : (d.inputs.map Pin.masked).map input = d.inputs.map input := by
    rw [List.map_map]
    exact List.map_congr_left fun p _ => rfl
  rw [text, text, toJson, toJson, masked]
  dsimp only
  rw [hproperties, houtputs, hinputs]

end Document

end ModulePins
