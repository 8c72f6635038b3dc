import Mathlib.Data.List.Basic
import ModulePins.FileStore

/-!
# Nodes of a file store

A store is looked at through `FileStore.node?` alone: what a location holds. Putting a node and
dropping a location are then one equation each, and the order in which nodes were made does not
show.

`Keeps s s'` says what no operation on regular files takes away: the directories, the directory that
relative paths start from, and the absence of links. `Extends s s'` is stronger; it holds when `s'`
has more directories than `s` and is the same otherwise, as after making directories.

## Main results

* `FileStore.node?_put`, `FileStore.node?_drop` — the two changes
* `FileStore.Keeps.put`, `FileStore.Keeps.drop` — regular files come and go, the rest stays
* `FileStore.Extends.put_directory` — one directory more
* `FileStore.ChangesOnly` — the frame of an operation, as a list of locations
-/

namespace ModulePins

namespace FileStore

variable {s s' s'' : FileStore} {l l' : Location} {n : FileNode} {b : ByteArray} {t : String}

@[simp] theorem node?_nil (s : FileStore) : s.node? [] = some .directory := if_pos rfl

theorem node?_of_ne_nil (h : l ≠ []) :
    s.node? l = (s.nodes.find? fun e => e.1 = l).map (·.2) := if_neg h

theorem mem_nodes_of_node? (hl : l ≠ []) (h : s.node? l = some n) : (l, n) ∈ s.nodes := by
  rw [node?_of_ne_nil hl, Option.map_eq_some_iff] at h
  obtain ⟨e, he, rfl⟩ := h
  have hkey : e.1 = l := by simpa using List.find?_some he
  exact hkey ▸ List.mem_of_find?_eq_some he

/-- In an empty store there is nothing but the root directory. -/
theorem eq_directory_of_node?_empty (h : empty.node? l = some n) : n = .directory := by
  by_cases hl : l = []
  · rw [hl, node?_nil] at h
    exact (Option.some.inj h).symm
  · cases mem_nodes_of_node? hl h

@[simp] theorem current_put (s : FileStore) (l : Location) (n : FileNode) :
    (s.put l n).current = s.current := by
  rw [put]
  split <;> rfl

@[simp] theorem current_drop (s : FileStore) (l : Location) : (s.drop l).current = s.current := rfl

/-- The first entry of a location, when the nodes of that location have been replaced. -/
theorem find?_map_replace (l l' : Location) (n : FileNode) (nodes : List (Location × FileNode)) :
    (nodes.map fun e => if e.1 = l then (l, n) else e).find? (fun e => e.1 = l') =
      (nodes.find? fun e => e.1 = l').map fun e => if e.1 = l then (l, n) else e := by
  rw [List.find?_map]
  congr 2
  funext e
  simp only [Function.comp_apply]
  split
  · rename_i he
    rw [he]
  · rfl

/-- What a location holds after a node has been put somewhere. The root directory stays. -/
theorem node?_put (s : FileStore) (l : Location) (n : FileNode) (hl' : l' ≠ []) :
    (s.put l n).node? l' = if l' = l then some n else s.node? l' := by
  rw [node?_of_ne_nil hl', node?_of_ne_nil hl', put]
  split
  · rename_i hany
    rw [find?_map_replace]
    cases hfind : s.nodes.find? fun e => e.1 = l' with
    | none =>
      have hne : l' ≠ l := by
        rintro rfl
        obtain ⟨e, he, hel⟩ := List.any_eq_true.mp hany
        exact List.find?_eq_none.mp hfind e he hel
      rw [if_neg hne]
      rfl
    | some e =>
      have hel : e.1 = l' := by simpa using List.find?_some hfind
      simp only [Option.map_some, hel]
      split <;> rfl
  · rename_i hany
    have hnone : l' = l → s.nodes.find? (fun e => e.1 = l') = none := by
      rintro rfl
      rw [List.find?_eq_none]
      exact fun e he hel => hany (List.any_eq_true.mpr ⟨e, he, hel⟩)
    rw [List.find?_append]
    split
    · rename_i heq
      rw [hnone heq]
      simp [heq]
    · rename_i hne
      simp [Ne.symm hne]

theorem ne_nil_of_not_directory (h : s.node? l ≠ some .directory) : l ≠ [] := by
  rintro rfl
  exact h (node?_nil s)

theorem node?_put_self (h : s.node? l ≠ some .directory) (n : FileNode) :
    (s.put l n).node? l = some n := by
  rw [node?_put s l n (ne_nil_of_not_directory h), if_pos rfl]

theorem node?_drop (s : FileStore) (l : Location) (hl' : l' ≠ []) :
    (s.drop l).node? l' = if l' = l then none else s.node? l' := by
  rw [node?_of_ne_nil hl', node?_of_ne_nil hl', drop, List.find?_filter]
  split
  · rename_i heq
    simp [heq]
  · rename_i hne
    congr 2
    funext e
    by_cases he : e.1 = l'
    · simp [he, hne]
    · simp [he]

theorem node?_of_drop (h : (s.drop l).node? l' = some n) : s.node? l' = some n := by
  rcases eq_or_ne l' [] with rfl | hne
  · rwa [node?_nil] at h ⊢
  · rw [node?_drop s l hne] at h
    split at h
    · cases h
    · exact h

/-! ### What stays -/

/-- The directories and the directory that relative paths start from are kept, and no link is
made. -/
structure Keeps (s s' : FileStore) : Prop where
  current : s'.current = s.current
  directories : ∀ l, s.node? l = some .directory → s'.node? l = some .directory
  links : ∀ l t, s'.node? l = some (.link t) → s.node? l = some (.link t)

theorem Keeps.refl (s : FileStore) : Keeps s s := ⟨rfl, fun _ h => h, fun _ _ h => h⟩

theorem Keeps.trans (h : Keeps s s') (h' : Keeps s' s'') : Keeps s s'' :=
  ⟨h'.current.trans h.current, fun l hl => h'.directories l (h.directories l hl),
    fun l t hl => h.links l t (h'.links l t hl)⟩

/-- A node that is no link is put where no directory is. -/
theorem Keeps.put (hl : s.node? l ≠ some .directory) (hn : ∀ t, n ≠ .link t) :
    Keeps s (s.put l n) := by
  refine ⟨current_put s l n, fun l' hl' => ?_, fun l' t hl' => ?_⟩
  · rcases eq_or_ne l' [] with rfl | hne
    · exact node?_nil _
    · rw [node?_put s l n hne, if_neg]
      · exact hl'
      · rintro rfl
        exact hl hl'
  · rcases eq_or_ne l' [] with rfl | hne
    · rw [node?_nil] at hl'
      cases hl'
    · rw [node?_put s l n hne] at hl'
      split at hl'
      · exact absurd (Option.some.inj hl') (hn t)
      · exact hl'

theorem Keeps.drop (hl : s.node? l ≠ some .directory) : Keeps s (s.drop l) := by
  refine ⟨rfl, fun l' hl' => ?_, fun _ _ => node?_of_drop⟩
  rcases eq_or_ne l' [] with rfl | hne
  · exact node?_nil _
  · rw [node?_drop s l hne, if_neg]
    · exact hl'
    · rintro rfl
      exact hl hl'

/-- `s'` has more directories than `s`, and is the same otherwise. -/
structure Extends (s s' : FileStore) : Prop where
  current : s'.current = s.current
  kept : ∀ l n, s.node? l = some n → s'.node? l = some n
  made : ∀ l n, s.node? l = none → s'.node? l = some n → n = .directory

theorem Extends.refl (s : FileStore) : Extends s s :=
  ⟨rfl, fun _ _ h => h, fun _ _ h h' => by rw [h] at h'; cases h'⟩

theorem Extends.trans (h : Extends s s') (h' : Extends s' s'') : Extends s s'' := by
  refine ⟨h'.current.trans h.current, fun l n hl => h'.kept l n (h.kept l n hl),
    fun l n hl hl' => ?_⟩
  cases hmid : s'.node? l with
  | none => exact h'.made l n hmid hl'
  | some m =>
    cases h.made l m hl hmid
    have := h'.kept l _ hmid
    rw [hl'] at this
    exact Option.some.inj this

theorem Extends.put_directory (hl : s.node? l = none) : Extends s (s.put l .directory) := by
  refine ⟨current_put s l _, fun l' n hl' => ?_, fun l' n hnone hl' => ?_⟩
  · rcases eq_or_ne l' [] with rfl | hne
    · rwa [node?_nil] at hl' ⊢
    · rw [node?_put s l _ hne, if_neg]
      · exact hl'
      · rintro rfl
        rw [hl] at hl'
        cases hl'
  · rcases eq_or_ne l' [] with rfl | hne
    · rw [node?_nil] at hl'
      exact (Option.some.inj hl').symm
    · rw [node?_put s l _ hne] at hl'
      split at hl'
      · exact (Option.some.inj hl').symm
      · rw [hnone] at hl'
        cases hl'

theorem Extends.file_iff (h : Extends s s') :
    s'.node? l = some (.file b) ↔ s.node? l = some (.file b) := by
  refine ⟨fun hl => ?_, h.kept l _⟩
  cases hold : s.node? l with
  | none => cases h.made l _ hold hl
  | some n => rw [← hl, h.kept l n hold]

theorem Extends.keeps (h : Extends s s') : Keeps s s' := by
  refine ⟨h.current, fun l => h.kept l _, fun l t hl => ?_⟩
  cases hold : s.node? l with
  | none => cases h.made l _ hold hl
  | some n => rw [← hl, h.kept l n hold]

/-- The regular files are the same, except perhaps at some locations. -/
structure ChangesOnly (places : List Location) (s s' : FileStore) : Prop where
  keeps : Keeps s s'
  file_iff : ∀ l, l ∉ places → ∀ b, s'.node? l = some (.file b) ↔ s.node? l = some (.file b)

theorem ChangesOnly.refl (places : List Location) (s : FileStore) : ChangesOnly places s s :=
  ⟨Keeps.refl s, fun _ _ _ => Iff.rfl⟩

theorem ChangesOnly.trans {places : List Location} (h : ChangesOnly places s s')
    (h' : ChangesOnly places s' s'') : ChangesOnly places s s'' :=
  ⟨h.keeps.trans h'.keeps, fun l hl b => (h'.file_iff l hl b).trans (h.file_iff l hl b)⟩

theorem ChangesOnly.mono {places more : List Location} (hsub : places ⊆ more)
    (h : ChangesOnly places s s') : ChangesOnly more s s' :=
  ⟨h.keeps, fun l hl => h.file_iff l fun hmem => hl (hsub hmem)⟩

theorem Extends.changesOnly (h : Extends s s') (places : List Location) : ChangesOnly places s s' :=
  ⟨h.keeps, fun _ _ _ => h.file_iff⟩

theorem ChangesOnly.put (hl : s.node? l ≠ some .directory) (b : ByteArray) :
    ChangesOnly [l] s (s.put l (.file b)) := by
  refine ⟨Keeps.put hl fun t h => (by cases h), fun l' hl' b' => ?_⟩
  rcases eq_or_ne l' [] with rfl | hne
  · simp
  · rw [node?_put s l _ hne, if_neg fun h => hl' (List.mem_singleton.mpr h)]

theorem ChangesOnly.drop (hl : s.node? l ≠ some .directory) : ChangesOnly [l] s (s.drop l) := by
  refine ⟨Keeps.drop hl, fun l' hl' b' => ?_⟩
  rcases eq_or_ne l' [] with rfl | hne
  · simp
  · rw [node?_drop s l hne, if_neg fun h => hl' (List.mem_singleton.mpr h)]

end FileStore

end ModulePins
