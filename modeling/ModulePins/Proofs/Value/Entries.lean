import Mathlib.Data.List.Basic
import ModulePins.Value

/-!
# Entries of a mapping

Two keys are the same by what they stand for, so whether they are is decided by `Value.key?` alone,
and being the same is symmetric and transitive. It is not reflexive: a collection is the same as no
key, and of the not-a-numbers only the named one is the same as any. A mapping whose keys are the
same as themselves and as no other key of it is `Distinct`; this is what it takes to find every
entry again under its key.

Reading and writing entries obey the usual two laws, in this form: a key that is written reads as
what was written under every key that is the same, and everything else reads as before. The keys
themselves keep their places, and the first form in which they came.

## Main definitions

* `Value.Distinct` — each key of the entries is the same as itself and as no other one
* `Value.WellKeyed` — this holds of the entries at every depth

## Main results

* `Value.sameKey_symm`, `Value.sameKey_trans` — being the same key
* `Value.entry?_setEntry`, `Value.map_fst_setEntry` — values and keys behind one write
* `Value.wellKeyed_named` — entries under pairwise different names are well keyed
-/

namespace ModulePins

namespace Value

variable {a b c k l v : Value} {es : List (Value × Value)} {e : Value × Value}

theorem eq_mapping_or_ne (v : Value) : (∃ es, v = .mapping es) ∨ ∀ es, v ≠ .mapping es := by
  cases v with
  | mapping es => exact .inl ⟨es, rfl⟩
  | _ => exact .inr nofun

/-! ### Same keys -/

theorem sameKey_congr {a' b' : Value} (ha : a.key? = a'.key?) (hb : b.key? = b'.key?) :
    sameKey a b = sameKey a' b' := by
  rw [sameKey, ha, hb, sameKey]

theorem key?_eq_of_sameKey (h : sameKey a b = true) : a.key? = b.key? := by
  rw [sameKey] at h
  split at h <;> simp_all

theorem sameKey_iff : sameKey a b = true ↔ a.key? = b.key? ∧ sameKey b b = true := by
  constructor
  · intro h
    have hkey := key?_eq_of_sameKey h
    exact ⟨hkey, sameKey_congr hkey rfl ▸ h⟩
  · rintro ⟨hkey, h⟩
    exact sameKey_congr hkey rfl ▸ h

theorem sameKey_symm (h : sameKey a b = true) : sameKey b a = true := by
  obtain ⟨hkey, h⟩ := sameKey_iff.mp h
  exact sameKey_congr rfl hkey ▸ h

theorem sameKey_trans (h : sameKey a b = true) (h' : sameKey b c = true) : sameKey a c = true :=
  sameKey_congr (key?_eq_of_sameKey h) rfl ▸ h'

theorem sameKey_str (s t : String) : sameKey (.str s) (.str t) = decide (s = t) := by
  simp [sameKey, key?]

/-! ### Reading and writing -/

@[simp] theorem entry?_nil (k : Value) : entry? k [] = none := rfl

theorem entry?_cons (k : Value) (e : Value × Value) (es : List (Value × Value)) :
    entry? k (e :: es) = if sameKey e.1 k then some e.2 else entry? k es := by
  rw [Value.entry?, List.find?_cons, Value.entry?]
  cases sameKey e.1 k <;> rfl

/-- Keys that are the same read the same. -/
theorem entry?_congr (h : sameKey k l = true) (es : List (Value × Value)) :
    entry? k es = entry? l es := by
  induction es with
  | nil => rfl
  | cons e es ih => rw [entry?_cons, entry?_cons, ih, sameKey_congr rfl (key?_eq_of_sameKey h)]

theorem entry?_eq_none (h : ∀ e ∈ es, sameKey e.1 k = false) : entry? k es = none := by
  rw [Value.entry?, Option.map_eq_none_iff, List.find?_eq_none]
  exact fun e he => by rw [h e he]; exact Bool.false_ne_true

theorem exists_mem_of_entry? (h : entry? k es = some v) : ∃ e ∈ es, e.2 = v := by
  obtain ⟨e, he, rfl⟩ := Option.map_eq_some_iff.mp h
  exact ⟨e, List.mem_of_find?_eq_some he, rfl⟩

theorem setEntry_cons (k v : Value) (e : Value × Value) (es : List (Value × Value)) :
    setEntry k v (e :: es) = if sameKey e.1 k then (e.1, v) :: es else e :: setEntry k v es := rfl

theorem entry?_setEntry (k v l : Value) (es : List (Value × Value)) :
    entry? l (setEntry k v es) = if sameKey k l then some v else entry? l es := by
  induction es with
  | nil => rw [setEntry, entry?_cons]
  | cons e es ih =>
    rw [setEntry_cons]
    cases he : sameKey e.1 k with
    | true =>
      have hsame : sameKey e.1 l = sameKey k l := sameKey_congr (key?_eq_of_sameKey he) rfl
      rw [if_pos rfl, entry?_cons, entry?_cons, hsame]
      cases sameKey k l <;> rfl
    | false =>
      rw [if_neg Bool.false_ne_true, entry?_cons, entry?_cons, ih]
      cases hkl : sameKey k l with
      | false => rfl
      | true =>
        have hel : sameKey e.1 l = false := by
          rw [← Bool.not_eq_true]
          intro hel
          rw [sameKey_trans hel (sameKey_symm hkl)] at he
          cases he
        rw [hel]
        rfl

/-- A key that is there keeps its place and its form, and any other one comes last. -/
theorem map_fst_setEntry (k v : Value) (es : List (Value × Value)) :
    (setEntry k v es).map Prod.fst =
      es.map Prod.fst ++ if (Value.entry? k es).isNone then [k] else [] := by
  induction es with
  | nil => rfl
  | cons e es ih =>
    rw [setEntry_cons, entry?_cons]
    cases sameKey e.1 k with
    | true => simp
    | false => simp [ih]

/-- Writing what is there already changes nothing. -/
theorem setEntry_of_entry? (h : entry? k es = some v) : setEntry k v es = es := by
  induction es with
  | nil => cases h
  | cons e es ih =>
    rw [entry?_cons] at h
    rw [setEntry_cons]
    cases hk : sameKey e.1 k with
    | true =>
      rw [hk, if_pos rfl, Option.some_inj] at h
      rw [if_pos rfl, ← h]
    | false =>
      rw [hk, if_neg Bool.false_ne_true] at h
      rw [if_neg Bool.false_ne_true, ih h]

/-! ### Distinct keys -/

/-- Each key is the same as itself, and as no other one of the entries. -/
structure Distinct (es : List (Value × Value)) : Prop where
  self : ∀ e ∈ es, sameKey e.1 e.1 = true
  apart : es.Pairwise fun e f => sameKey e.1 f.1 = false

theorem Distinct.tail (h : Distinct (e :: es)) : Distinct es :=
  ⟨fun f hf => h.self f (List.mem_cons_of_mem e hf), (List.pairwise_cons.mp h.apart).2⟩

/-- A key that is the same as the first one leads to none of the others. -/
theorem Distinct.entry?_tail (h : Distinct (e :: es)) (hk : sameKey e.1 k = true) :
    entry? k es = none := by
  refine entry?_eq_none fun f hf => ?_
  rw [← Bool.not_eq_true]
  intro hfk
  have hef := (List.pairwise_cons.mp h.apart).1 f hf
  rw [sameKey_trans hk (sameKey_symm hfk)] at hef
  cases hef

/-- Every entry is found under its key. -/
theorem Distinct.entry?_of_mem (h : Distinct es) (he : e ∈ es) : entry? e.1 es = some e.2 := by
  induction es with
  | nil => cases he
  | cons f es ih =>
    rw [entry?_cons]
    rcases List.mem_cons.mp he with rfl | he
    · rw [if_pos (h.self e List.mem_cons_self)]
    · rw [(List.pairwise_cons.mp h.apart).1 e he, if_neg Bool.false_ne_true, ih h.tail he]

/-- The keys of every mapping in the value that is reached through mappings are distinct. -/
inductive WellKeyed : Value → Prop
  | plain {v : Value} (h : ∀ es, v ≠ .mapping es) : WellKeyed v
  | mapping {es : List (Value × Value)} (distinct : Distinct es)
      (entries : ∀ e ∈ es, WellKeyed e.2) : WellKeyed (.mapping es)

theorem WellKeyed.distinct (h : WellKeyed (.mapping es)) : Distinct es := by
  cases h with
  | plain h => exact absurd rfl (h es)
  | mapping distinct _ => exact distinct

theorem WellKeyed.of_mem (h : WellKeyed (.mapping es)) (he : e ∈ es) : WellKeyed e.2 := by
  cases h with
  | plain h => exact absurd rfl (h es)
  | mapping _ entries => exact entries e he

theorem WellKeyed.of_entry? (h : WellKeyed (.mapping es)) (hk : entry? k es = some v) :
    WellKeyed v := by
  obtain ⟨e, he, rfl⟩ := exists_mem_of_entry? hk
  exact h.of_mem he

/-- Entries whose keys are names. -/
def named (fields : List (String × Value)) : List (Value × Value) :=
  fields.map fun f => (.str f.1, f.2)

/-- **Entries under pairwise different names are well keyed**, if their values are. -/
theorem wellKeyed_named {fields : List (String × Value)} (h : (fields.map Prod.fst).Nodup)
    (hvalues : ∀ f ∈ fields, WellKeyed f.2) : WellKeyed (.mapping (named fields)) := by
  refine .mapping ⟨fun e he => ?_, ?_⟩ fun e he => ?_
  · obtain ⟨f, -, rfl⟩ := List.mem_map.mp he
    rw [sameKey_str, decide_eq_true rfl]
  · rw [named, List.pairwise_map]
    refine (List.pairwise_map.mp h).imp fun hne => ?_
    rw [sameKey_str, decide_eq_false hne]
  · obtain ⟨f, hf, rfl⟩ := List.mem_map.mp he
    exact hvalues f hf

end Value

end ModulePins
