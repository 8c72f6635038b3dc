import Mathlib.Data.List.Induction
import Mathlib.Data.List.Nodup
import ModulePins.Keyed

/-!
# Laws of keyed lists

Writing an element into a list keeps the keys apart and in the order in which they first appeared,
and a key leads to the element that was written last under it. Both laws are about `Keyed.put`; a
whole list of writes is then a recursion over the writes from the right.

The law that resolution of inherited pins turns on is `putAll_collapse`: writing a list that has
been collapsed already leaves the same as writing the list itself. Collapsing a source early, and
reusing the collapsed form, therefore never shows.

## Main results

* `map_key_put`, `find?_put` — the keys and the elements after one write
* `putAll_collapse` — a collapsed list writes like the list itself
* `putAll_collapse_self`, `collapse_prefix_append` — writing the same again changes nothing
* `map_key_collapse`, `last?_of_mem_collapse` — first position, last element
-/

namespace ModulePins

namespace Keyed

variable {α κ : Type} [DecidableEq κ] {key : α → κ}

/-! ### One write -/

theorem map_key_put (x : α) (xs : List α) :
    (put key x xs).map key = if key x ∈ xs.map key then xs.map key else xs.map key ++ [key x] := by
  induction xs with
  | nil => simp [put]
  | cons y ys ih =>
    by_cases hy : key y = key x
    · simp [put, hy]
    · rw [put, if_neg hy, List.map_cons, ih]
      simp only [List.map_cons, List.mem_cons, Ne.symm hy, false_or]
      split <;> rfl

theorem mem_map_key_put_self (x : α) (xs : List α) : key x ∈ (put key x xs).map key := by
  rw [map_key_put]
  split <;> simp_all

/-- A key that is not there yet goes to the end. -/
theorem put_of_not_mem {x : α} {xs : List α} (h : key x ∉ xs.map key) :
    put key x xs = xs ++ [x] := by
  induction xs with
  | nil => rfl
  | cons y ys ih =>
    rw [List.map_cons, List.mem_cons, not_or] at h
    rw [put, if_neg (Ne.symm h.1), ih h.2, List.cons_append]

theorem nodup_map_key_put {x : α} {xs : List α} (h : (xs.map key).Nodup) :
    ((put key x xs).map key).Nodup := by
  rw [map_key_put]
  split
  · exact h
  · rename_i hx
    rw [List.nodup_append]
    refine ⟨h, List.nodup_singleton _, fun a ha b hb => ?_⟩
    rw [List.mem_singleton.mp hb]
    exact fun hab => hx (hab ▸ ha)

theorem find?_put (k : κ) (x : α) (xs : List α) :
    find? key k (put key x xs) = if key x = k then some x else find? key k xs := by
  unfold find?
  induction xs with
  | nil => by_cases hx : key x = k <;> simp [put, hx]
  | cons y ys ih =>
    by_cases hy : key y = key x
    · rw [put, if_pos hy, List.find?_cons, List.find?_cons, hy]
      by_cases hx : key x = k <;> simp [hx]
    · rw [put, if_neg hy, List.find?_cons, List.find?_cons, ih]
      by_cases hk : key y = k
      · simp [hk, Ne.symm (hk ▸ hy)]
      · simp [hk]

theorem find?_erase (k k' : κ) (xs : List α) :
    find? key k (erase key k' xs) = if k' = k then none else find? key k xs := by
  unfold find? erase
  rw [List.find?_filter]
  split
  · rename_i h
    simp [h]
  · rename_i h
    congr 1
    funext x
    by_cases hx : key x = k
    · simp [hx, Ne.symm h]
    · simp [hx]

theorem nodup_map_key_erase {k : κ} {xs : List α} (h : (xs.map key).Nodup) :
    ((erase key k xs).map key).Nodup :=
  h.sublist (List.filter_sublist.map key)

/-- Of two writes under one key only the later one shows. -/
theorem put_put_of_eq {x y : α} (h : key x = key y) (xs : List α) :
    put key x (put key y xs) = put key x xs := by
  induction xs with
  | nil => simp [put, h]
  | cons z zs ih =>
    by_cases hz : key z = key y
    · simp [put, hz, h]
    · simp [put, hz, h, ih]

/-- Writes under different keys commute once one of the keys has its place. -/
theorem put_comm {x y : α} (h : key x ≠ key y) {xs : List α} (hx : key x ∈ xs.map key) :
    put key x (put key y xs) = put key y (put key x xs) := by
  induction xs with
  | nil => simp at hx
  | cons z zs ih =>
    by_cases hzx : key z = key x
    · simp [put, hzx, h]
    · have hx' : key x ∈ zs.map key := by
        simpa [Ne.symm hzx] using hx
      by_cases hzy : key z = key y
      · simp [put, hzy, Ne.symm h]
      · simp [put, hzx, hzy, ih hx']

/-! ### Many writes -/

@[simp] theorem putAll_nil (xs : List α) : putAll key xs [] = xs := rfl

@[simp] theorem putAll_cons (xs : List α) (y : α) (ys : List α) :
    putAll key xs (y :: ys) = putAll key (put key y xs) ys := rfl

theorem putAll_append (xs ys zs : List α) :
    putAll key xs (ys ++ zs) = putAll key (putAll key xs ys) zs := List.foldl_append ..

theorem putAll_concat (xs ys : List α) (y : α) :
    putAll key xs (ys ++ [y]) = put key y (putAll key xs ys) := by
  rw [putAll_append]
  rfl

theorem collapse_concat (ys : List α) (y : α) :
    collapse key (ys ++ [y]) = put key y (collapse key ys) :=
  putAll_concat [] ys y

/-- A write moves to the front of later ones if none of them has its key and its key has a place
already. -/
theorem put_putAll {y : α} : ∀ {ys xs : List α}, key y ∈ xs.map key → key y ∉ ys.map key →
    put key y (putAll key xs ys) = putAll key (put key y xs) ys
  | [], _, _, _ => rfl
  | z :: zs, xs, hxs, hys => by
    rw [List.map_cons, List.mem_cons, not_or] at hys
    have hplace : key y ∈ (put key z xs).map key := by
      rw [map_key_put]
      split <;> simp [hxs]
    rw [putAll_cons, put_putAll hplace hys.2, put_comm hys.1 hxs, putAll_cons]

/-- Writing a list into which `y` has been written leaves what the list leaves, with `y` written
after it. -/
theorem putAll_put {y : α} : ∀ {ys : List α} (xs : List α), (ys.map key).Nodup →
    putAll key xs (put key y ys) = put key y (putAll key xs ys)
  | [], _, _ => rfl
  | z :: zs, xs, hys => by
    rw [List.map_cons, List.nodup_cons] at hys
    by_cases hz : key z = key y
    · have hplace : key y ∈ (put key z xs).map key := hz ▸ mem_map_key_put_self z xs
      rw [put, if_pos hz, putAll_cons, putAll_cons, put_putAll hplace (hz ▸ hys.1),
        put_put_of_eq hz.symm]
    · rw [put, if_neg hz, putAll_cons, putAll_cons, putAll_put _ hys.2]

theorem nodup_map_key_collapse (ys : List α) : ((collapse key ys).map key).Nodup := by
  induction ys using List.reverseRecOn with
  | nil => exact List.nodup_nil
  | append_singleton ys y ih =>
    rw [collapse_concat]
    exact nodup_map_key_put ih

/-- A list that names no key twice is left as it is. -/
theorem collapse_of_nodup {ys : List α} (h : (ys.map key).Nodup) : collapse key ys = ys := by
  induction ys using List.reverseRecOn with
  | nil => rfl
  | append_singleton ys y ih =>
    rw [List.map_append, List.nodup_append] at h
    obtain ⟨hys, -, hdisj⟩ := h
    rw [collapse_concat, ih hys, put_of_not_mem]
    exact fun hmem => hdisj _ hmem _ List.mem_cons_self rfl

/-- **A collapsed list writes like the list itself.** -/
theorem putAll_collapse (xs ys : List α) :
    putAll key xs (collapse key ys) = putAll key xs ys := by
  induction ys using List.reverseRecOn with
  | nil => rfl
  | append_singleton ys y ih =>
    rw [collapse_concat, putAll_put xs (nodup_map_key_collapse ys), ih, putAll_concat]

/-! ### Writing the same again -/

/-- Writing an element that is there changes nothing. -/
theorem put_of_mem {x : α} {xs : List α} (hnodup : (xs.map key).Nodup) (hx : x ∈ xs) :
    put key x xs = xs := by
  induction xs with
  | nil => cases hx
  | cons y ys ih =>
    rw [List.map_cons, List.nodup_cons] at hnodup
    rcases List.mem_cons.mp hx with rfl | hx
    · rw [put, if_pos rfl]
    · have hy : key y ≠ key x := fun heq => hnodup.1 (heq ▸ List.mem_map_of_mem hx)
      rw [put, if_neg hy, ih hnodup.2 hx]

theorem putAll_of_subset {xs ys : List α} (hnodup : (xs.map key).Nodup) (hys : ys ⊆ xs) :
    putAll key xs ys = xs := by
  induction ys with
  | nil => rfl
  | cons y ys ih =>
    rw [List.cons_subset] at hys
    rw [putAll_cons, put_of_mem hnodup hys.1, ih hys.2]

/-- **Writing a list once more** changes nothing. -/
theorem putAll_collapse_self (xs : List α) : putAll key (collapse key xs) xs = collapse key xs := by
  rw [← putAll_collapse]
  exact putAll_of_subset (nodup_map_key_collapse xs) (List.Subset.refl _)

theorem collapse_append (xs ys : List α) :
    collapse key (xs ++ ys) = putAll key (collapse key xs) (collapse key ys) := by
  rw [collapse, putAll_append, putAll_collapse, collapse]

/-- Lists that collapse to the same may stand for each other. -/
theorem collapse_append_congr {xs xs' ys ys' : List α} (hxs : collapse key xs' = collapse key xs)
    (hys : collapse key ys' = collapse key ys) :
    collapse key (xs' ++ ys') = collapse key (xs ++ ys) := by
  rw [collapse_append, collapse_append, hxs, hys]

theorem collapse_flatMap_congr {β : Type} {f g : β → List α} {bs : List β}
    (h : ∀ b ∈ bs, collapse key (g b) = collapse key (f b)) :
    collapse key (bs.flatMap g) = collapse key (bs.flatMap f) := by
  induction bs with
  | nil => rfl
  | cons b bs ih =>
    obtain ⟨hb, hbs⟩ := List.forall_mem_cons.mp h
    rw [List.flatMap_cons, List.flatMap_cons, collapse_append_congr hb (ih hbs)]

/-- A beginning of a list may come in front of it. -/
theorem collapse_prefix_append {pre xs : List α} (h : pre <+: xs) :
    collapse key (pre ++ xs) = collapse key xs := by
  obtain ⟨rest, rfl⟩ := h
  rw [← List.append_assoc]
  refine collapse_append_congr ?_ rfl
  rw [collapse, putAll_append]
  exact putAll_collapse_self pre

/-! ### First position, last element -/

theorem eraseDups_concat (ks : List κ) (k : κ) :
    (ks ++ [k]).eraseDups = if k ∈ ks then ks.eraseDups else ks.eraseDups ++ [k] := by
  rw [List.eraseDups_append]
  by_cases hk : k ∈ ks
  · simp [List.removeAll, hk]
  · have hrest : [k].removeAll ks = [k] := by simp [List.removeAll, hk]
    rw [if_neg hk, hrest, List.eraseDups_cons, List.filter_nil, List.eraseDups_nil]

/-- The keys of a collapsed list are those of the list in the order of first appearance. -/
theorem map_key_collapse (ys : List α) :
    (collapse key ys).map key = (ys.map key).eraseDups := by
  induction ys using List.reverseRecOn with
  | nil => rfl
  | append_singleton ys y ih =>
    rw [collapse_concat, map_key_put, ih, List.map_append, List.map_singleton, eraseDups_concat]
    simp only [List.mem_eraseDups]

/-- The last element with key `k`. -/
def last? (key : α → κ) (k : κ) (xs : List α) : Option α := find? key k xs.reverse

theorem last?_concat (k : κ) (xs : List α) (x : α) :
    last? key k (xs ++ [x]) = if key x = k then some x else last? key k xs := by
  unfold last? find?
  rw [List.reverse_append]
  by_cases hx : key x = k <;> simp [hx]

/-- A key of a collapsed list leads to the last element with that key. -/
theorem find?_collapse (k : κ) (ys : List α) : find? key k (collapse key ys) = last? key k ys := by
  induction ys using List.reverseRecOn with
  | nil => rfl
  | append_singleton ys y ih => rw [collapse_concat, find?_put, ih, last?_concat]

theorem find?_key_of_mem {x : α} {xs : List α} (h : (xs.map key).Nodup) (hx : x ∈ xs) :
    find? key (key x) xs = some x := by
  unfold find?
  induction xs with
  | nil => cases hx
  | cons y ys ih =>
    rw [List.map_cons, List.nodup_cons] at h
    rcases List.mem_cons.mp hx with rfl | hx
    · simp
    · have hy : key y ≠ key x := fun hyx => h.1 (hyx ▸ List.mem_map_of_mem hx)
      rw [List.find?_cons_of_neg (by simpa using hy), ih h.2 hx]

/-- The elements of a collapsed list are the last ones with their keys. -/
theorem last?_of_mem_collapse {x : α} {ys : List α} (hx : x ∈ collapse key ys) :
    last? key (key x) ys = some x := by
  rw [← find?_collapse]
  exact find?_key_of_mem (nodup_map_key_collapse ys) hx

theorem mem_of_mem_collapse {x : α} {ys : List α} (hx : x ∈ collapse key ys) : x ∈ ys :=
  List.mem_reverse.mp (List.mem_of_find?_eq_some (last?_of_mem_collapse hx))

/-! ### Maps that keep the keys -/

section Maps

variable {f : α → α} (hf : ∀ x, key (f x) = key x)

include hf

theorem map_put (x : α) (xs : List α) : (put key x xs).map f = put key (f x) (xs.map f) := by
  induction xs with
  | nil => rfl
  | cons y ys ih =>
    by_cases hy : key y = key x
    · rw [put, if_pos hy, List.map_cons, List.map_cons, put, if_pos (by rw [hf, hf, hy])]
    · rw [put, if_neg hy, List.map_cons, ih, List.map_cons, put, if_neg (by rw [hf, hf]; exact hy)]

theorem map_putAll (xs ys : List α) :
    (putAll key xs ys).map f = putAll key (xs.map f) (ys.map f) := by
  induction ys generalizing xs with
  | nil => rfl
  | cons y ys ih => rw [putAll_cons, ih, map_put hf, List.map_cons, putAll_cons]

theorem hasKey_map (k : κ) (xs : List α) : hasKey key k (xs.map f) = hasKey key k xs := by
  simp [hasKey, List.any_map, Function.comp_def, hf]

theorem find?_map (k : κ) (xs : List α) : find? key k (xs.map f) = (find? key k xs).map f := by
  simp only [find?, List.find?_map, Function.comp_def, hf]

end Maps

end Keyed

end ModulePins
