import Mathlib.Data.List.Infix
import ModulePins.Proofs.Value.Entries

/-!
# Merging mappings

Merging overrides a mapping in layers: where both layers have a mapping under a key, these are merged
in turn, and everywhere else the upper layer's value replaces the lower one. So the value under one
key depends on the two values under this key alone (`Value.layered`), and what holds of one key is
carried to a path of keys by induction on the path.

A path leads through mappings only. It may lead to a value in the upper layer; it may leave the upper
layer at some mapping, which then says nothing about it; or it may come to an end there at a value
that is no mapping, and such a value hides whatever the lower layer has behind it.

The laws ask for distinct keys at every depth. Texts that differ are distinct (`wellKeyed_named`), and
nothing else about the keys matters.

## Main definitions

* `Value.layered` — the value under one key of a merged mapping
* `Value.follow?` — the value that a path of keys leads to

## Main results

* `Value.entry?_merge`, `Value.map_fst_merge` — the values and the keys of a merged mapping
* `Value.merge_eq_self` — merging what is there already changes nothing
* `Value.merge_layered` — merging as a layered override at every depth
-/

namespace ModulePins

namespace Value

variable {k v w : Value} {o : Option Value} {base override es changes : List (Value × Value)}
  {path : List Value}

/-! ### One key -/

/-- The value under a key of a merged mapping, from the one of the lower layer, if there is one, and
the one of the upper layer. -/
def layered : Option Value → Value → Value
  | some (mapping es), mapping changes => mapping (merge es changes)
  | _, v => v

theorem layered_of_ne (h : ∀ es changes, o = some (.mapping es) → v ≠ .mapping changes) :
    layered o v = v := by
  rw [layered]
  exact h

/-- Either there are two mappings to merge, or the value of the upper layer stays as it is. -/
theorem layered_cases (o : Option Value) (v : Value) :
    (∃ es changes, o = some (.mapping es) ∧ v = .mapping changes) ∨
      (∀ es changes, o = some (.mapping es) → v ≠ .mapping changes) ∧ layered o v = v := by
  by_cases h : ∃ es changes, o = some (.mapping es) ∧ v = .mapping changes
  · exact .inl h
  · have hne : ∀ es changes, o = some (.mapping es) → v ≠ .mapping changes :=
      fun es changes ho hv => h ⟨es, changes, ho, hv⟩
    exact .inr ⟨hne, layered_of_ne hne⟩

@[simp] theorem merge_nil (base : List (Value × Value)) : merge base [] = base := by
  rw [merge]

theorem merge_cons (base : List (Value × Value)) (k v : Value) (rest : List (Value × Value)) :
    merge base ((k, v) :: rest) = merge (setEntry k (layered (Value.entry? k base) v) base) rest := by
  rcases layered_cases (Value.entry? k base) v with ⟨es, changes, hes, rfl⟩ | ⟨hne, hkept⟩
  · rw [hes, layered, merge]
    exact hes
  · rw [hkept, merge]
    exact hne

/-- **The values of a merged mapping.** -/
theorem entry?_merge (h : Distinct override) (k : Value) (base : List (Value × Value)) :
    entry? k (merge base override) =
      ((Value.entry? k override).map (layered (Value.entry? k base))).or (Value.entry? k base) := by
  induction override generalizing base with
  | nil => rw [merge_nil, entry?_nil, Option.map_none, Option.none_or]
  | cons e rest ih =>
    rw [merge_cons, ih h.tail, entry?_setEntry, entry?_cons]
    cases hk : sameKey e.1 k with
    | true =>
      rw [if_pos rfl, if_pos rfl, h.entry?_tail hk, Option.map_none, Option.none_or,
        Option.map_some, Option.some_or, entry?_congr hk]
    | false => rfl

theorem entry?_merge_of_none (h : Distinct override) (hk : entry? k override = none) :
    entry? k (merge base override) = entry? k base := by
  rw [entry?_merge h, hk, Option.map_none, Option.none_or]

theorem entry?_merge_of_some (h : Distinct override) (hk : entry? k override = some v) :
    entry? k (merge base override) = some (layered (Value.entry? k base) v) := by
  rw [entry?_merge h, hk, Option.map_some, Option.some_or]

/-- **The keys of a merged mapping**: those of the lower layer, and behind them those that are new,
both in their order. -/
theorem map_fst_merge (h : Distinct override) (base : List (Value × Value)) :
    (merge base override).map Prod.fst =
      base.map Prod.fst ++ (override.map Prod.fst).filter fun k => (Value.entry? k base).isNone := by
  induction override generalizing base with
  | nil => rw [merge_nil, List.map_nil, List.filter_nil, List.append_nil]
  | cons e rest ih =>
    have hrest : ∀ l ∈ rest.map Prod.fst,
        entry? l (setEntry e.1 (layered (Value.entry? e.1 base) e.2) base) = entry? l base := by
      intro l hl
      obtain ⟨f, hf, rfl⟩ := List.mem_map.mp hl
      rw [entry?_setEntry, (List.pairwise_cons.mp h.apart).1 f hf, if_neg Bool.false_ne_true]
    rw [merge_cons, ih h.tail, map_fst_setEntry, List.append_assoc,
      List.filter_congr fun l hl => by rw [hrest l hl], List.map_cons, List.filter_cons]
    split <;> rfl

/-! ### Merging again -/

/-- Merging what is there already changes nothing. -/
theorem merge_eq_self (h : ∀ e ∈ override, ∃ w, entry? e.1 base = some w ∧
    layered (some w) e.2 = w) : merge base override = base := by
  induction override with
  | nil => exact merge_nil base
  | cons e rest ih =>
    obtain ⟨w, hw, hlayered⟩ := h e List.mem_cons_self
    rw [merge_cons, hw, hlayered, setEntry_of_entry? hw]
    exact ih fun f hf => h f (List.mem_cons_of_mem e hf)

theorem layered_self (h : WellKeyed v) : layered (some v) v = v := by
  induction h with
  | plain hv => exact layered_of_ne fun _ changes _ => hv changes
  | mapping distinct _ ih =>
    have hself := merge_eq_self fun e he => ⟨e.2, distinct.entry?_of_mem he, ih e he⟩
    rw [layered, hself]

theorem merge_self (h : WellKeyed (.mapping base)) : merge base base = base :=
  Value.mapping.inj (layered_self h)

/-- The value under a key is the same after the upper layer has been merged once more. -/
theorem layered_layered (h : WellKeyed v) (o : Option Value) :
    layered (some (layered o v)) v = layered o v := by
  induction h generalizing o with
  | plain hv =>
    rw [layered_of_ne fun _ changes _ => hv changes, layered_of_ne fun _ changes _ => hv changes]
  | @mapping changes distinct entries ih =>
    rcases layered_cases o (.mapping changes) with ⟨es, _, rfl, ⟨⟩⟩ | ⟨-, hkept⟩
    · rw [layered, layered]
      refine congrArg Value.mapping (merge_eq_self fun e he => ?_)
      have hentry := distinct.entry?_of_mem he
      exact ⟨_, entry?_merge_of_some distinct hentry, ih e he _⟩
    · rw [hkept]
      exact layered_self (.mapping distinct entries)

theorem merge_merge (h : WellKeyed (.mapping override)) (base : List (Value × Value)) :
    merge (merge base override) override = merge base override :=
  Value.mapping.inj (layered_layered h (some (.mapping base)))

/-! ### Paths of keys -/

/-- The value that a path of keys leads to, through mappings. -/
def follow? : List Value → Value → Option Value
  | [], v => some v
  | k :: path, mapping es => (Value.entry? k es).bind (follow? path)
  | _ :: _, _ => none

@[simp] theorem follow?_nil (v : Value) : follow? [] v = some v := rfl

theorem follow?_cons (k : Value) (path : List Value) (es : List (Value × Value)) :
    follow? (k :: path) (.mapping es) = (Value.entry? k es).bind (follow? path) := rfl

theorem follow?_cons_of_ne (h : ∀ es, v ≠ .mapping es) (k : Value) (path : List Value) :
    follow? (k :: path) v = none := by
  cases v with
  | mapping es => exact absurd rfl (h es)
  | _ => rfl

/-- A path that leads to a mapping starts at one. -/
theorem exists_mapping_of_follow? (h : follow? path v = some (.mapping es)) :
    ∃ es', v = .mapping es' := by
  rcases v.eq_mapping_or_ne with hv | hv
  · exact hv
  · cases path with
    | nil => exact absurd (Option.some.inj h) (hv es)
    | cons k path =>
      rw [follow?_cons_of_ne hv] at h
      cases h

/-- **A value of the upper layer that is no mapping** is what its path leads to. -/
theorem follow?_merge_of_ne (h : WellKeyed (.mapping override))
    (hv : follow? path (.mapping override) = some v) (hne : ∀ es, v ≠ .mapping es) :
    follow? path (.mapping (merge base override)) = some v := by
  induction path generalizing base override with
  | nil => exact absurd (Option.some.inj hv).symm (hne override)
  | cons k path ih =>
    rw [follow?_cons] at hv ⊢
    obtain ⟨w, hw, hrest⟩ := Option.bind_eq_some_iff.mp hv
    rw [entry?_merge_of_some h.distinct hw, Option.bind_some]
    rcases layered_cases (Value.entry? k base) w with ⟨es, changes, hes, rfl⟩ | ⟨-, hkept⟩
    · rw [hes, layered]
      exact ih (h.of_entry? hw) hrest
    · rw [hkept, hrest]

/-- **Where the upper layer says nothing**, a path leads to what it leads to in the lower one. -/
theorem follow?_merge_of_none (h : WellKeyed (.mapping override))
    (hnone : follow? path (.mapping override) = none)
    (hshorter : ∀ p, p <+: path → p ≠ path → ∀ w, follow? p (.mapping override) = some w →
      ∃ es, w = .mapping es) :
    follow? path (.mapping (merge base override)) = follow? path (.mapping base) := by
  induction path generalizing base override with
  | nil => cases hnone
  | cons k path ih =>
    rw [follow?_cons, follow?_cons]
    cases hw : entry? k override with
    | none => rw [entry?_merge_of_none h.distinct hw]
    | some w =>
      rw [follow?_cons, hw, Option.bind_some] at hnone
      have hfirst : follow? [k] (.mapping override) = some w := by
        rw [follow?_cons, hw, Option.bind_some, follow?_nil]
      obtain ⟨k', path', rfl⟩ : ∃ k' path', path = k' :: path' := by
        cases path with
        | nil => cases hnone
        | cons k' path' => exact ⟨k', path', rfl⟩
      obtain ⟨changes, rfl⟩ := hshorter [k] (by simp) (by simp) w hfirst
      rw [entry?_merge_of_some h.distinct hw, Option.bind_some]
      rcases layered_cases (Value.entry? k base) (.mapping changes) with
        ⟨es, _, hes, ⟨⟩⟩ | ⟨hlower, hkept⟩
      · rw [hes, layered, Option.bind_some]
        refine ih (h.of_entry? hw) hnone fun p hp hne w hpw => ?_
        refine hshorter (k :: p) (List.cons_prefix_cons.mpr ⟨rfl, hp⟩) (by simpa using hne) w ?_
        rw [follow?_cons, hw, Option.bind_some, hpw]
      · -- the path goes on, and the lower layer has no mapping to follow it in
        rw [hkept, hnone]
        cases hu : entry? k base with
        | none => rfl
        | some u =>
          rw [Option.bind_some, follow?_cons_of_ne fun es he => hlower es changes (he ▸ hu) rfl]

/-- **Where both layers have a mapping**, a path leads to the two of them merged. -/
theorem follow?_merge_of_mapping (h : WellKeyed (.mapping override))
    (hes : follow? path (.mapping base) = some (.mapping es))
    (hchanges : follow? path (.mapping override) = some (.mapping changes)) :
    follow? path (.mapping (merge base override)) = some (.mapping (merge es changes)) ∧
      WellKeyed (.mapping changes) := by
  induction path generalizing base override with
  | nil =>
    obtain rfl : base = es := Value.mapping.inj (Option.some.inj hes)
    obtain rfl : override = changes := Value.mapping.inj (Option.some.inj hchanges)
    exact ⟨rfl, h⟩
  | cons k path ih =>
    rw [follow?_cons] at hes hchanges ⊢
    obtain ⟨u, hu, hes⟩ := Option.bind_eq_some_iff.mp hes
    obtain ⟨w, hw, hchanges⟩ := Option.bind_eq_some_iff.mp hchanges
    obtain ⟨es', rfl⟩ := exists_mapping_of_follow? hes
    obtain ⟨changes', rfl⟩ := exists_mapping_of_follow? hchanges
    rw [entry?_merge_of_some h.distinct hw, hu, layered, Option.bind_some]
    exact ih (h.of_entry? hw) hes hchanges

/-- **Merging is a layered override at every depth.** A value of the upper layer that is no mapping
is found at its path. Where a path leads nowhere in the upper layer, and no shorter one ends at a
value that is no mapping, it leads to what it leads to in the lower layer, if anything. Where both
layers have a mapping, the merged one has the keys of the lower layer and then the new ones of the
upper layer, in their orders. Merging a mapping into itself changes nothing, and neither does
merging the upper layer a second time. -/
theorem merge_layered (hbase : WellKeyed (.mapping base))
    (hoverride : WellKeyed (.mapping override)) :
    (∀ path v, follow? path (.mapping override) = some v → (∀ es, v ≠ .mapping es) →
      follow? path (.mapping (merge base override)) = some v) ∧
    (∀ path, follow? path (.mapping override) = none →
      (∀ p, p <+: path → p ≠ path → ∀ w, follow? p (.mapping override) = some w →
        ∃ es, w = .mapping es) →
      follow? path (.mapping (merge base override)) = follow? path (.mapping base)) ∧
    (∀ path es changes, follow? path (.mapping base) = some (.mapping es) →
      follow? path (.mapping override) = some (.mapping changes) →
      ∃ merged, follow? path (.mapping (merge base override)) = some (.mapping merged) ∧
        merged.map Prod.fst =
          es.map Prod.fst ++ (changes.map Prod.fst).filter fun k => (Value.entry? k es).isNone) ∧
    merge base base = base ∧
    merge (merge base override) override = merge base override := by
  refine ⟨fun path v => follow?_merge_of_ne hoverride,
    fun path => follow?_merge_of_none hoverride, fun path es changes hes hchanges => ?_,
    merge_self hbase, merge_merge hoverride base⟩
  obtain ⟨hmerged, hkeyed⟩ := follow?_merge_of_mapping hoverride hes hchanges
  exact ⟨merge es changes, hmerged, map_fst_merge hkeyed.distinct es⟩

/-- A lower layer with two mappings, a list and two numbers. -/
def lowerLayer : List (Value × Value) :=
  named [("a", .int 1), ("b", .mapping (named [("c", .int 2), ("d", .list [.int 3])])),
    ("e", .mapping (named [("x", .int 4)])), ("f", .int 5)]

/-- An upper layer that changes one of the mappings, replaces the other one, and has a mapping in
place of a number. -/
def upperLayer : List (Value × Value) :=
  named [("g", .null), ("b", .mapping (named [("n", .mapping []), ("c", .str "two")])),
    ("e", .bool false), ("f", .mapping (named [("y", .int 6)]))]

theorem wellKeyed_lowerLayer : WellKeyed (.mapping lowerLayer) := by
  have hb : WellKeyed (.mapping (named [("c", .int 2), ("d", .list [.int 3])])) :=
    wellKeyed_named (by decide) (by simpa using ⟨.plain nofun, .plain nofun⟩)
  have he : WellKeyed (.mapping (named [("x", .int 4)])) :=
    wellKeyed_named (by decide) (by simpa using .plain nofun)
  exact wellKeyed_named (by decide) (by simpa using ⟨.plain nofun, hb, he, .plain nofun⟩)

theorem wellKeyed_upperLayer : WellKeyed (.mapping upperLayer) := by
  have hn : WellKeyed (.mapping []) := .mapping ⟨nofun, .nil⟩ nofun
  have hb : WellKeyed (.mapping (named [("n", .mapping []), ("c", .str "two")])) :=
    wellKeyed_named (by decide) (by simpa using ⟨hn, .plain nofun⟩)
  have hf : WellKeyed (.mapping (named [("y", .int 6)])) :=
    wellKeyed_named (by decide) (by simpa using .plain nofun)
  exact wellKeyed_named (by decide) (by simpa using ⟨.plain nofun, hb, .plain nofun, hf⟩)

/-- A value that is changed below a mapping, one that is left alone beside it, one that is gone with
the mapping around it, and the keys of both mappings that are merged. -/
theorem merge_layered_layers :
    WellKeyed (.mapping lowerLayer) ∧ WellKeyed (.mapping upperLayer) ∧
      follow? [.str "b", .str "c"] (.mapping (merge lowerLayer upperLayer)) = some (.str "two") ∧
      follow? [.str "b", .str "d"] (.mapping (merge lowerLayer upperLayer)) =
        some (.list [.int 3]) ∧
      follow? [.str "e"] (.mapping (merge lowerLayer upperLayer)) = some (.bool false) ∧
      (merge lowerLayer upperLayer).map Prod.fst =
        [.str "a", .str "b", .str "e", .str "f", .str "g"] ∧
      (∃ merged, follow? [.str "b"] (.mapping (merge lowerLayer upperLayer)) =
        some (.mapping merged) ∧ merged.map Prod.fst = [.str "c", .str "d", .str "n"]) ∧
      merge lowerLayer lowerLayer = lowerLayer ∧
      merge (merge lowerLayer upperLayer) upperLayer = merge lowerLayer upperLayer := by
  obtain ⟨hvalue, hbelow, hkeys, hself, hagain⟩ :=
    merge_layered wellKeyed_lowerLayer wellKeyed_upperLayer
  obtain ⟨merged, hmerged, hroot⟩ := hkeys [] lowerLayer upperLayer rfl rfl
  obtain rfl : merge lowerLayer upperLayer = merged := Value.mapping.inj (Option.some.inj hmerged)
  have hinner := hkeys [.str "b"] _ _ rfl rfl
  refine ⟨wellKeyed_lowerLayer, wellKeyed_upperLayer, hvalue _ _ rfl nofun, ?_,
    hvalue _ _ rfl nofun, hroot, hinner, hself, hagain⟩
  refine hbelow [.str "b", .str "d"] rfl fun p hp hne w hw => ?_
  have hcases : p = [] ∨ p = [.str "b"] ∨ p = [.str "b", .str "d"] := by
    simpa using (List.mem_inits p _).mpr hp
  rcases hcases with rfl | rfl | rfl
  · exact ⟨upperLayer, (Option.some.inj hw).symm⟩
  · exact ⟨_, (Option.some.inj hw).symm⟩
  · exact absurd rfl hne

end Value

end ModulePins
