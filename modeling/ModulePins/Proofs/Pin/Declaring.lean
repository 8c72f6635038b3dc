import ModulePins.Descriptor.Basic
import ModulePins.Proofs.Keyed

/-!
# Declaring properties

The properties of a pin and those of a module are lists in which a key names one property. A property
is declared under a key and then handed to an action of the caller, which may set any of its fields,
the key among them. So it is only known behind the action whether the property replaces an earlier
one or comes last, and two calls with different keys may well declare the same property.

None of this can be seen in what is left: it is settled by the properties as the actions leave them,
in their order.

## Main definitions

* `Keyed.Settled` — each key at its first position, with the last element written under it
* `PropertyCall` — a call that declares a property

## Main results

* `Keyed.settled_putAll` — what is left of a series of writes
* `Pin.properties_edit`, `Pin.properties_editAll` — one edit and a series of edits
* `Pin.settled_declared` — pins and modules, whatever is declared on them
-/

namespace ModulePins

namespace Keyed

variable {α κ : Type} [DecidableEq κ] {key : α → κ} {xs ys : List α}

/-- What is left of elements that were written one after the other: each key stands where it first
appeared, and has the last element that was written under it. -/
structure Settled (key : α → κ) (written left : List α) : Prop where
  keys : left.map key = (written.map key).eraseDups
  last : ∀ x ∈ left, last? key (key x) written = some x

/-- There is just one list that can be left. -/
theorem settled_iff : Settled key ys xs ↔ xs = collapse key ys := by
  constructor
  · intro h
    have hkeys : xs.map key = (collapse key ys).map key := h.keys.trans (map_key_collapse ys).symm
    -- an element can be read off its key, in both lists in the same way
    have hread {zs : List α} (hzs : ∀ z ∈ zs, last? key (key z) ys = some z) :
        zs.map some = (zs.map key).map fun k => last? key k ys := by
      rw [List.map_map]
      exact List.map_congr_left fun z hz => (hzs z hz).symm
    refine List.map_injective_iff.mpr (fun _ _ => Option.some.inj) ?_
    rw [hread h.last, hread fun z hz => last?_of_mem_collapse hz, hkeys]
  · rintro rfl
    exact ⟨map_key_collapse ys, fun x hx => last?_of_mem_collapse hx⟩

theorem Settled.nodup (h : Settled key ys xs) : (xs.map key).Nodup := by
  rw [settled_iff.mp h]
  exact nodup_map_key_collapse ys

/-- **What is left of a series of writes** into a list that names no key twice. -/
theorem settled_putAll (hxs : (xs.map key).Nodup) (ys : List α) :
    Settled key (xs ++ ys) (putAll key xs ys) := by
  rw [settled_iff, collapse_append, collapse_of_nodup hxs, putAll_collapse]

end Keyed

open Keyed

/-! ### Pins -/

/-- The property that an edit declares, if it declares one. -/
def PinEdit.declared? : PinEdit → Option Property
  | .require _ => none
  | .property p | .propertyRow p => some p

namespace Pin

variable {p : Pin} {es : List PinEdit}

/-- What one edit does to the properties. -/
theorem properties_edit (p : Pin) (e : PinEdit) :
    (p.edit e).1.properties = putAll Property.key p.properties e.declared?.toList := by
  cases e <;> rfl

theorem editAll_concat (p : Pin) (es : List PinEdit) (e : PinEdit) :
    (p.editAll (es ++ [e])).1 = ((p.editAll es).1.edit e).1 := by
  rw [editAll, List.foldl_append]
  rfl

/-- **The properties after a series of edits.** -/
theorem properties_editAll (p : Pin) (es : List PinEdit) :
    (p.editAll es).1.properties =
      putAll Property.key p.properties (es.filterMap PinEdit.declared?) := by
  induction es using List.reverseRecOn with
  | nil => rfl
  | append_singleton es e ih =>
    have hlast : [e].filterMap PinEdit.declared? = e.declared?.toList := by
      cases e <;> rfl
    rw [editAll_concat, properties_edit, ih, List.filterMap_append, putAll_append, hlast]

/-- A pin as it is first declared: without properties, or a copy of one of the catalog. -/
def Fresh (p : Pin) : Prop := p.properties = [] ∨ ∃ mnemonic, Catalog.lookup? mnemonic = some p

end Pin

/-- No pin of the catalog names a property twice. -/
theorem Catalog.nodup_keys {mnemonic : String} {p : Pin} (h : lookup? mnemonic = some p) :
    (p.properties.map Property.key).Nodup := by
  have hentries : ∀ e ∈ entries, (e.2.properties.map Property.key).Nodup := by decide
  obtain ⟨before, after, hmem, -⟩ := List.lookup_eq_some_iff.mp h
  exact hentries (mnemonic, p) (hmem ▸ List.mem_append_right _ List.mem_cons_self)

theorem Pin.Fresh.nodup {p : Pin} (h : p.Fresh) : (p.properties.map Property.key).Nodup := by
  rcases h with h | ⟨mnemonic, h⟩
  · rw [h]
    exact List.nodup_nil
  · exact Catalog.nodup_keys h

/-! ### Modules -/

/-- Declares properties of the module itself, one after the other. -/
def Descriptor.declareEach (d : Descriptor) (ps : List Property) : Descriptor :=
  ps.foldl (fun d p => (d.declareProperty p).1) d

theorem Descriptor.declareEach_eq (d : Descriptor) (ps : List Property) :
    d.declareEach ps = { d with properties := putAll Property.key d.properties ps } := by
  induction ps generalizing d with
  | nil => rfl
  | cons p ps ih => exact ih (d.declareProperty p).1

/-! ### Calls -/

/-- A call that declares a property: under a key, with an action that may set all its fields, or by a
row of values. -/
inductive PropertyCall where
  | configured (key : String) (configure : Property → Property)
  | row (key : String) (required sensitive : Bool) (defaultValue description : String)

namespace PropertyCall

/-- The property as it is declared, behind the action. -/
def declared : PropertyCall → Property
  | configured key configure => configure { key }
  | row key required sensitive defaultValue description =>
    { key, required, sensitive, defaultValue, description }

/-- What the call does to a pin. -/
def edit : PropertyCall → PinEdit
  | configured key configure => .property (configured key configure).declared
  | row key required sensitive defaultValue description =>
    .propertyRow (row key required sensitive defaultValue description).declared

@[simp] theorem declared?_edit (c : PropertyCall) : c.edit.declared? = some c.declared := by
  cases c <;> rfl

theorem filterMap_declared? (calls : List PropertyCall) :
    (calls.map edit).filterMap PinEdit.declared? = calls.map declared := by
  rw [List.filterMap_map, ← List.filterMap_eq_map]
  exact List.filterMap_congr fun c _ => declared?_edit c

end PropertyCall

/-- **Whatever is declared, keys stay apart.** After any calls on a pin as it is first declared, the
keys of its properties are pairwise different, and the list is what is left of the properties that it
started with, followed by those that the calls declared: each key at its first position, with the
last property declared under it. The same holds of the properties of a module, which start from
none. Since the calls are arbitrary, this is so at every point of a series of calls. -/
theorem Pin.settled_declared :
    (∀ p : Pin, p.Fresh → ∀ calls : List PropertyCall,
      (((p.editAll (calls.map PropertyCall.edit)).1.properties).map Property.key).Nodup ∧
      Settled Property.key (p.properties ++ calls.map PropertyCall.declared)
        (p.editAll (calls.map PropertyCall.edit)).1.properties) ∧
    ∀ d : Descriptor, d.properties = [] → ∀ calls : List PropertyCall,
      ((d.declareEach (calls.map PropertyCall.declared)).properties.map Property.key).Nodup ∧
      Settled Property.key (calls.map PropertyCall.declared)
        (d.declareEach (calls.map PropertyCall.declared)).properties := by
  constructor
  · intro p hp calls
    have hsettled := settled_putAll hp.nodup (calls.map PropertyCall.declared)
    rw [Pin.properties_editAll, PropertyCall.filterMap_declared?]
    exact ⟨hsettled.nodup, hsettled⟩
  · intro d hd calls
    have hnone : (d.properties.map Property.key).Nodup := by
      rw [hd]
      exact List.nodup_nil
    have hsettled := settled_putAll hnone (calls.map PropertyCall.declared)
    rw [hd, List.nil_append] at hsettled
    rw [Descriptor.declareEach_eq, hd]
    exact ⟨hsettled.nodup, hsettled⟩

/-- Calls whose actions choose other keys than the calls do: the first one replaces a property of the
catalog, and the last two declare the same property. -/
def renamingCalls : List PropertyCall :=
  [.configured "db.schema" fun p => { p with key := "db.port", defaultValue := "6543" },
    .row "db.schema" false false "public" "",
    .configured "db.port" fun p => { p with key := "db.schema", sensitive := true }]

theorem Pin.settled_declared_jdbc : Catalog.jdbc.Fresh ∧
    ((Catalog.jdbc.editAll (renamingCalls.map PropertyCall.edit)).1.properties).map Property.key =
      ["db.host", "db.port", "db.username", "db.password", "db.pool.size", "db.schema"] ∧
    ({ name := "m" } : Descriptor).properties = [] ∧
    (({ name := "m" } : Descriptor).declareEach
      (renamingCalls.map PropertyCall.declared)).properties.map Property.key =
        ["db.port", "db.schema"] := by
  have hjdbc : Catalog.jdbc.Fresh := .inr ⟨"jdbc", by decide⟩
  refine ⟨hjdbc, ?_, rfl, ?_⟩
  · rw [(Pin.settled_declared.1 Catalog.jdbc hjdbc renamingCalls).2.keys]
    decide
  · rw [(Pin.settled_declared.2 { name := "m" } rfl renamingCalls).2.keys]
    decide

end ModulePins
