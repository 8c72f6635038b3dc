import ModulePins.DirectoryTree.Memory
import ModulePins.Proofs.Discovery.Registration

/-!
# Walks over trees from lists of paths

A tree from lists of paths is built one node at a time, and the paths may contradict each other: one
list may hold a path as a file and another one something below it. Here the tree is described by the
lists alone, so that nothing depends on the order in which the nodes were made. A path leads to a
directory if one of the lists says so or if it is a proper part of another path; only what is not a
directory in this sense is a file.

With this description a walk is stated in full: which modules it returns, in which order, which
directories it reports as errors or as skipped, and what it registers.

## Main definitions

* `MemoryTree.IsDirectory`, `MemoryTree.IsFile` — what a path leads to
* `MemoryTree.Reachable`, `MemoryTree.Open` — whether the directories on the way can be read

## Main results

* `MemoryTree.mem_list_iff` — the entries of a directory
* `MemoryTree.visited_iff` — the directories that a walk comes to
* `MemoryTree.walk_exact` — a walk
-/

namespace ModulePins

namespace MemoryTree

variable {root : Path} {files dirs unreadable paths : List String} {s s' above rest : Segments}
  {name : String} {isDir : Bool} {nodes : List (Segments × Bool)}

/-! ### What the paths say -/

/-- One of the paths has these names. -/
def Named (paths : List String) (s : Segments) : Prop := ∃ p ∈ paths, Address.names p = s

/-- The names lead to a directory. -/
def IsDirectory (files dirs unreadable : List String) (s : Segments) : Prop :=
  s = [] ∨ (∃ p ∈ dirs ++ unreadable, s <+: Address.names p) ∨
    ∃ p ∈ files, s <+: Address.names p ∧ s ≠ Address.names p

/-- The names lead to something that is not a directory. -/
def IsFile (files dirs unreadable : List String) (s : Segments) : Prop :=
  Named files s ∧ ¬ IsDirectory files dirs unreadable s

/-- What lies above a directory is a directory. -/
theorem IsDirectory.mono (h : IsDirectory files dirs unreadable s') (hs : s <+: s') :
    IsDirectory files dirs unreadable s := by
  rcases h with rfl | ⟨p, hp, hbelow⟩ | ⟨p, hp, hbelow, hne⟩
  · exact .inl (List.prefix_nil.mp hs)
  · exact .inr (.inl ⟨p, hp, hs.trans hbelow⟩)
  · refine .inr (.inr ⟨p, hp, hs.trans hbelow, ?_⟩)
    rintro rfl
    exact hne (hbelow.eq_of_length_le hs.length_le)

/-- What lies above a file is a directory. -/
theorem IsFile.isDirectory_above (h : IsFile files dirs unreadable (s ++ [name])) :
    IsDirectory files dirs unreadable s := by
  obtain ⟨p, hp, heq⟩ := h.1
  refine .inr (.inr ⟨p, hp, heq ▸ List.prefix_append _ _, ?_⟩)
  rw [heq]
  simp

/-! ### Nodes -/

theorem mem_keys_mark :
    s' ∈ (mark s isDir nodes).map Prod.fst ↔ s' = s ∨ s' ∈ nodes.map Prod.fst := by
  induction nodes with
  | nil => simp [mark]
  | cons n ns ih =>
    rw [mark]
    split
    · rename_i heq
      simp [heq]
    · rw [List.map_cons, List.mem_cons, ih, List.map_cons, List.mem_cons, or_left_comm]

theorem nodup_mark (h : (nodes.map Prod.fst).Nodup) : ((mark s isDir nodes).map Prod.fst).Nodup := by
  induction nodes with
  | nil => simp [mark]
  | cons n ns ih =>
    rw [List.map_cons, List.nodup_cons] at h
    rw [mark]
    split
    · exact List.nodup_cons.mpr h
    · rename_i hne
      refine List.nodup_cons.mpr ⟨fun hmem => ?_, ih h.2⟩
      exact (mem_keys_mark.mp hmem).elim hne h.1

/-- A mark that says directory counts, wherever it is made. -/
theorem mem_mark_true : (s', true) ∈ mark s isDir nodes ↔
    (s' = s ∧ isDir = true) ∨ (s', true) ∈ nodes := by
  induction nodes with
  | nil => simp [mark]
  | cons n ns ih =>
    obtain ⟨key, flag⟩ := n
    rw [mark]
    split
    · rename_i heq
      cases isDir <;> cases flag <;> simp_all
    · rw [List.mem_cons, ih, List.mem_cons, or_left_comm]

/-- A first name and those behind it. -/
theorem exists_prefix_cons_iff {name : String} {P : Segments → Prop} :
    (∃ names, names ≠ [] ∧ names <+: name :: rest ∧ P names) ↔
      P [name] ∨ ∃ names, names ≠ [] ∧ names <+: rest ∧ P (name :: names) := by
  constructor
  · rintro ⟨names, hne, hbelow, hP⟩
    obtain rfl | ⟨names, rfl, -⟩ := List.prefix_cons_iff.mp hbelow
    · exact absurd rfl hne
    · rcases eq_or_ne names [] with rfl | hnames
      · exact .inl hP
      · exact .inr ⟨names, hnames, (List.cons_prefix_cons.mp hbelow).2, hP⟩
  · rintro (hP | ⟨names, -, hbelow, hP⟩)
    · exact ⟨[name], by simp, List.cons_prefix_cons.mpr ⟨rfl, List.nil_prefix⟩, hP⟩
    · exact ⟨name :: names, by simp, List.cons_prefix_cons.mpr ⟨rfl, hbelow⟩, hP⟩

theorem mem_keys_addFrom : s' ∈ (addFrom above isDir nodes rest).map Prod.fst ↔
    s' ∈ nodes.map Prod.fst ∨ ∃ names, names ≠ [] ∧ names <+: rest ∧ s' = above ++ names := by
  induction rest generalizing above nodes with
  | nil => simp [addFrom]
  | cons name rest ih =>
    rw [addFrom, ih, mem_keys_mark, exists_prefix_cons_iff, or_assoc, or_left_comm]
    simp only [List.append_assoc, List.singleton_append]

theorem nodup_addFrom (h : (nodes.map Prod.fst).Nodup) :
    ((addFrom above isDir nodes rest).map Prod.fst).Nodup := by
  induction rest generalizing above nodes with
  | nil => exact h
  | cons name rest ih => exact ih (nodup_mark h)

theorem mem_addFrom_true : (s', true) ∈ addFrom above isDir nodes rest ↔
    (s', true) ∈ nodes ∨ ∃ names, names ≠ [] ∧ names <+: rest ∧
      (isDir = true ∨ names ≠ rest) ∧ s' = above ++ names := by
  induction rest generalizing above nodes with
  | nil => simp [addFrom]
  | cons name rest ih =>
    rw [addFrom, ih, mem_mark_true, exists_prefix_cons_iff, or_assoc, or_left_comm]
    simp [and_comm]

/-- A list of paths, one after the other. -/
def addAll (isDir : Bool) (nodes : List (Segments × Bool)) (paths : List String) :
    List (Segments × Bool) :=
  paths.foldl (fun nodes p => addFrom [] isDir nodes (Address.names p)) nodes

theorem mem_keys_addAll : s ∈ (addAll isDir nodes paths).map Prod.fst ↔
    s ∈ nodes.map Prod.fst ∨ s ≠ [] ∧ ∃ p ∈ paths, s <+: Address.names p := by
  induction paths generalizing nodes with
  | nil => simp [addAll]
  | cons p ps ih =>
    rw [addAll, List.foldl_cons, ← addAll, ih, mem_keys_addFrom]
    simp [or_assoc, and_or_left]

theorem nodup_addAll (h : (nodes.map Prod.fst).Nodup) :
    ((addAll isDir nodes paths).map Prod.fst).Nodup := by
  induction paths generalizing nodes with
  | nil => exact h
  | cons p ps ih => exact ih (nodup_addFrom h)

theorem mem_addAll_true : (s, true) ∈ addAll isDir nodes paths ↔ (s, true) ∈ nodes ∨
    s ≠ [] ∧ ∃ p ∈ paths, s <+: Address.names p ∧ (isDir = true ∨ s ≠ Address.names p) := by
  induction paths generalizing nodes with
  | nil => simp [addAll]
  | cons p ps ih =>
    have hfirst : (∃ names, names ≠ [] ∧ names <+: Address.names p ∧
        (isDir = true ∨ names ≠ Address.names p) ∧ s = [] ++ names) ↔
        s ≠ [] ∧ s <+: Address.names p ∧ (isDir = true ∨ s ≠ Address.names p) := by
      simp only [List.nil_append, ← and_assoc, exists_eq_right']
    rw [addAll, List.foldl_cons, ← addAll, ih, mem_addFrom_true, hfirst, List.exists_mem_cons_iff,
      or_assoc, ← and_or_left]

theorem nodes_ofPaths : (ofPaths root files dirs unreadable).nodes =
    addAll false (addAll true (addAll true [] dirs) unreadable) files := rfl

theorem nodup_nodes : ((ofPaths root files dirs unreadable).nodes.map Prod.fst).Nodup :=
  nodup_addAll (nodup_addAll (nodup_addAll List.nodup_nil))

theorem mem_keys_nodes : s ∈ (ofPaths root files dirs unreadable).nodes.map Prod.fst ↔
    s ≠ [] ∧ ∃ p ∈ dirs ++ unreadable ++ files, s <+: Address.names p := by
  rw [nodes_ofPaths, mem_keys_addAll, mem_keys_addAll, mem_keys_addAll]
  simp [or_and_right, exists_or, and_or_left, or_assoc]

/-- **The directories among the nodes.** -/
theorem mem_nodes_true : (s, true) ∈ (ofPaths root files dirs unreadable).nodes ↔
    s ≠ [] ∧ IsDirectory files dirs unreadable s := by
  rw [nodes_ofPaths, mem_addAll_true, mem_addAll_true, mem_addAll_true, IsDirectory]
  rcases eq_or_ne s [] with rfl | hs
  · simp
  · simp [hs, or_and_right, exists_or, or_assoc]

/-- **The files among the nodes.** -/
theorem mem_nodes_false : (s, false) ∈ (ofPaths root files dirs unreadable).nodes ↔
    IsFile files dirs unreadable s := by
  rw [IsFile, Named]
  constructor
  · intro hmem
    have hkey := mem_keys_nodes.mp (List.mem_map_of_mem hmem)
    have hnot : ¬ IsDirectory files dirs unreadable s := fun hdir => by
      have := List.inj_on_of_nodup_map nodup_nodes hmem (mem_nodes_true.mpr ⟨hkey.1, hdir⟩) rfl
      simp at this
    obtain ⟨-, p, hp, hbelow⟩ := hkey
    refine ⟨?_, hnot⟩
    rcases List.mem_append.mp hp with hp | hp
    · exact absurd (.inr (.inl ⟨p, hp, hbelow⟩)) hnot
    · by_contra hnone
      exact hnot (.inr (.inr ⟨p, hp, hbelow, fun heq => hnone ⟨p, hp, heq.symm⟩⟩))
  · rintro ⟨⟨p, hp, rfl⟩, hnot⟩
    have hne : Address.names p ≠ [] := fun heq => hnot (.inl heq)
    have hkey : Address.names p ∈ (ofPaths root files dirs unreadable).nodes.map Prod.fst :=
      mem_keys_nodes.mpr ⟨hne, p, List.mem_append_right _ hp, List.prefix_rfl⟩
    obtain ⟨⟨key, flag⟩, hmem, rfl⟩ := List.mem_map.mp hkey
    cases flag with
    | false => exact hmem
    | true => exact absurd (mem_nodes_true.mp hmem).2 hnot

/-! ### Listings -/

/-- The directory may not be read. -/
theorem contains_unreadable_iff :
    (ofPaths root files dirs unreadable).unreadable.contains s = true ↔ Named unreadable s := by
  simp [ofPaths, Named]

theorem isDir_iff : (ofPaths root files dirs unreadable).isDir s = true ↔
    IsDirectory files dirs unreadable s := by
  rw [isDir, Bool.or_eq_true, List.isEmpty_iff, List.contains_iff_mem, mem_nodes_true]
  rcases eq_or_ne s [] with rfl | hs
  · simp [IsDirectory]
  · simp [hs]

theorem entryIn?_eq_some {node : Segments × Bool} {e : TreeEntry} :
    entryIn? s node = some e ↔ node = (s ++ [e.name], e.isDir) := by
  obtain ⟨key, flag⟩ := node
  obtain ⟨name, isDir⟩ := e
  rcases List.eq_nil_or_concat key with rfl | ⟨above, last, rfl⟩
  · simp [entryIn?]
  · rw [entryIn?, List.concat_eq_append, List.getLast?_concat, List.dropLast_concat]
    simp [and_assoc]

theorem list_toTree (t : MemoryTree) (s : Segments) : t.toTree.list s = t.list s := rfl

/-- The entries of a directory, as they are listed. -/
theorem list_of_isDirectory (hdir : IsDirectory files dirs unreadable s)
    (hread : ¬ Named unreadable s) :
    (ofPaths root files dirs unreadable).toTree.list s =
      .ok ((ofPaths root files dirs unreadable).nodes.filterMap (entryIn? s)) := by
  rw [list_toTree, list, if_neg (mt contains_unreadable_iff.mp hread), if_pos (isDir_iff.mpr hdir)]

theorem list_of_unreadable (h : Named unreadable s) :
    (ofPaths root files dirs unreadable).toTree.list s = .error (.denied (root.join s)) := by
  rw [list_toTree, list, if_pos (contains_unreadable_iff.mpr h)]
  rfl

/-- What can be listed is a directory that can be read. -/
theorem of_list_ok {entries : List TreeEntry}
    (h : (ofPaths root files dirs unreadable).toTree.list s = .ok entries) :
    IsDirectory files dirs unreadable s ∧ ¬ Named unreadable s ∧
      entries = (ofPaths root files dirs unreadable).nodes.filterMap (entryIn? s) := by
  have hread : ¬ Named unreadable s := fun hnamed => by
    rw [list_of_unreadable hnamed] at h
    cases h
  have hdir : IsDirectory files dirs unreadable s := by
    by_contra hnot
    rw [list_toTree, list, if_neg (mt contains_unreadable_iff.mp hread),
      if_neg (mt isDir_iff.mp hnot)] at h
    cases h
  rw [list_of_isDirectory hdir hread] at h
  exact ⟨hdir, hread, (Except.ok.inj h).symm⟩

/-- **The entries of a directory.** -/
theorem mem_entries_iff {e : TreeEntry} :
    e ∈ (ofPaths root files dirs unreadable).nodes.filterMap (entryIn? s) ↔
      (s ++ [e.name], e.isDir) ∈ (ofPaths root files dirs unreadable).nodes := by
  simp only [List.mem_filterMap, entryIn?_eq_some, exists_eq_right]

/-- A directory in a directory that can be listed. -/
theorem exists_entry_true_iff : (∃ entries,
    (ofPaths root files dirs unreadable).toTree.list s = .ok entries ∧ ⟨name, true⟩ ∈ entries) ↔
      IsDirectory files dirs unreadable (s ++ [name]) ∧ ¬ Named unreadable s := by
  constructor
  · rintro ⟨_, hlist, hmem⟩
    obtain ⟨-, hread, rfl⟩ := of_list_ok hlist
    exact ⟨(mem_nodes_true.mp (mem_entries_iff.mp hmem)).2, hread⟩
  · rintro ⟨hdir, hread⟩
    refine ⟨_, list_of_isDirectory (hdir.mono (List.prefix_append _ _)) hread, ?_⟩
    exact mem_entries_iff.mpr (mem_nodes_true.mpr ⟨by simp, hdir⟩)

/-- A file in a directory that can be listed. -/
theorem exists_entry_false_iff : (∃ entries,
    (ofPaths root files dirs unreadable).toTree.list s = .ok entries ∧ ⟨name, false⟩ ∈ entries) ↔
      IsFile files dirs unreadable (s ++ [name]) ∧ ¬ Named unreadable s := by
  constructor
  · rintro ⟨_, hlist, hmem⟩
    obtain ⟨-, hread, rfl⟩ := of_list_ok hlist
    exact ⟨mem_nodes_false.mp (mem_entries_iff.mp hmem), hread⟩
  · rintro ⟨hfile, hread⟩
    refine ⟨_, list_of_isDirectory hfile.isDirectory_above hread, ?_⟩
    exact mem_entries_iff.mpr (mem_nodes_false.mpr hfile)

/-- Each name stands for one node, so no directory lists it twice. -/
theorem distinct_ofPaths : (ofPaths root files dirs unreadable).toTree.Distinct := by
  intro s entries hlist
  obtain ⟨-, -, rfl⟩ := of_list_ok hlist
  rw [List.Nodup, List.pairwise_map]
  refine List.Pairwise.filterMap _ (fun node node' hne e he e' he' hname => ?_)
    (List.pairwise_map.mp nodup_nodes)
  obtain rfl := entryIn?_eq_some.mp he
  obtain rfl := entryIn?_eq_some.mp he'
  exact hne (by rw [hname])

/-! ### Walks -/

/-- Every directory above can be read. -/
def Reachable (unreadable : List String) (s : Segments) : Prop :=
  ∀ above, above <+: s → above ≠ s → ¬ Named unreadable above

/-- **The directories that a walk comes to.** -/
theorem visited_iff {r : WalkRules} :
    r.Visited (ofPaths root files dirs unreadable).toTree s ↔
      IsDirectory files dirs unreadable s ∧ r.excludes s = false ∧ Reachable unreadable s := by
  simp only [WalkRules.visited_iff, exists_entry_true_iff]
  constructor
  · rintro ⟨hexcluded, hway⟩
    refine ⟨?_, hexcluded, fun above hbelow hne => ?_⟩
    · rcases List.eq_nil_or_concat s with rfl | ⟨above, name, rfl⟩
      · exact .inl rfl
      · rw [List.concat_eq_append] at hway ⊢
        exact (hway above name List.prefix_rfl).1
    · obtain ⟨rest, rfl⟩ := hbelow
      cases rest with
      | nil => simp at hne
      | cons name rest =>
        exact (hway above name ⟨rest, by simp⟩).2
  · rintro ⟨hdir, hexcluded, hreach⟩
    refine ⟨hexcluded, fun above name hbelow => ⟨hdir.mono hbelow, ?_⟩⟩
    refine hreach above ((List.prefix_append _ _).trans hbelow) ?_
    rintro rfl
    simpa using hbelow.length_le

/-- Names that lead through readable directories to one that can be read. -/
def Open (unreadable : List String) (s : Segments) : Prop :=
  ∀ above, above <+: s → ¬ Named unreadable above

theorem open_iff : Open unreadable s ↔ Reachable unreadable s ∧ ¬ Named unreadable s := by
  constructor
  · intro h
    exact ⟨fun above hbelow _ => h above hbelow, h s List.prefix_rfl⟩
  · rintro ⟨hreach, hread⟩ above hbelow
    by_cases heq : above = s
    · exact heq ▸ hread
    · exact hreach above hbelow heq

/-- The directory is one of those that a walk returns as modules, if no earlier one has its
address. -/
def IsModule (files dirs unreadable : List String) (r : WalkRules) (s : Segments) : Prop :=
  s ≠ [] ∧ IsFile files dirs unreadable (s ++ [r.moduleFile]) ∧ r.excludes s = false ∧
    Open unreadable s

theorem marked_iff {r : WalkRules} :
    r.Marked (ofPaths root files dirs unreadable).toTree s ↔
      IsModule files dirs unreadable r s := by
  rw [WalkRules.Marked, exists_entry_false_iff, visited_iff, IsModule, open_iff]
  constructor
  · rintro ⟨⟨-, hexcluded, hreach⟩, hs, hfile, hread⟩
    exact ⟨hs, hfile, hexcluded, hreach, hread⟩
  · rintro ⟨hs, hfile, hexcluded, hreach, hread⟩
    exact ⟨⟨hfile.isDirectory_above, hexcluded, hreach⟩, hs, hfile, hread⟩

/-- What cannot be listed is one of the directories that may not be read. -/
theorem list_eq_error_iff {fault : ListingFault} (hdir : IsDirectory files dirs unreadable s) :
    (ofPaths root files dirs unreadable).toTree.list s = .error fault ↔
      Named unreadable s ∧ fault = .denied (root.join s) := by
  by_cases hread : Named unreadable s
  · simp [list_of_unreadable hread, hread, eq_comm]
  · simp [list_of_isDirectory hdir hread, hread]

/-- A directory that may not be read is a directory. -/
theorem Named.isDirectory (h : Named unreadable s) : IsDirectory files dirs unreadable s := by
  obtain ⟨p, hp, rfl⟩ := h
  exact .inr (.inl ⟨p, List.mem_append_right _ hp, List.prefix_rfl⟩)

theorem mem_failures_iff {r : WalkRules} {fault : ListingFault} :
    (s, fault) ∈ r.failures (ofPaths root files dirs unreadable).toTree ↔
      (Named unreadable s ∧ r.excludes s = false ∧ Reachable unreadable s) ∧
        fault = .denied (root.join s) := by
  rw [WalkRules.mem_failures_iff, visited_iff]
  constructor
  · rintro ⟨⟨hdir, hexcluded, hreach⟩, hlist⟩
    obtain ⟨hnamed, hfault⟩ := (list_eq_error_iff hdir).mp hlist
    exact ⟨⟨hnamed, hexcluded, hreach⟩, hfault⟩
  · rintro ⟨⟨hnamed, hexcluded, hreach⟩, hfault⟩
    exact ⟨⟨hnamed.isDirectory, hexcluded, hreach⟩,
      (list_eq_error_iff hnamed.isDirectory).mpr ⟨hnamed, hfault⟩⟩

theorem concat_mem_leftOut_iff {r : WalkRules} :
    s ++ [name] ∈ r.leftOut (ofPaths root files dirs unreadable).toTree ↔
      name ∈ r.excludeDirs ∧ IsDirectory files dirs unreadable (s ++ [name]) ∧
        r.excludes s = false ∧ Open unreadable s := by
  rw [WalkRules.concat_mem_leftOut_iff, exists_entry_true_iff, visited_iff, open_iff,
    WalkRules.excludes_concat]
  constructor
  · rintro ⟨⟨-, hexcluded, hreach⟩, hname, hdir, hread⟩
    rw [hexcluded, Bool.false_or, List.contains_iff_mem] at hname
    exact ⟨hname, hdir, hexcluded, hreach, hread⟩
  · rintro ⟨hname, hdir, hexcluded, hreach, hread⟩
    refine ⟨⟨hdir.mono (List.prefix_append _ _), hexcluded, hreach⟩, ?_, hdir, hread⟩
    rw [List.contains_iff_mem.mpr hname, Bool.or_true]

/-- **A walk over a tree from lists of paths.** The modules are the directories that hold a module
file, in lexicographic order and so each before those below it; of two directories with the same
address the first one counts. The errors are the directories that may not be read, in the same
order. The skipped directories are those with an excluded name in a directory that was listed. A
walk that registers returns the same, and registers the address of each module once, in the order of
the modules, whatever state the registration changes and whether or not it fails. -/
theorem walk_exact (root : Path) (files dirs unreadable : List String) (r : WalkRules) :
    let t := (ofPaths root files dirs unreadable).toTree
    let d := (r.walk t).1
    (d.modules.map FoundModule.segments).Pairwise (· < ·) ∧
    (d.modules.map FoundModule.segments).Pairwise (fun s s' => ¬ s' <+: s) ∧
    (∀ found, found ∈ d.modules ↔ ∃ s, IsModule files dirs unreadable r s ∧
      found = ⟨Address.format r.separator s, s, root.join s⟩ ∧
      ∀ s', IsModule files dirs unreadable r s' → s' < s →
        Address.format r.separator s' ≠ Address.format r.separator s) ∧
    (∃ failed : List Segments,
      d.errors = failed.map
        (fun s => (root.join s, "Permission denied: " ++ (root.join s).toString)) ∧
      failed.Pairwise (· < ·) ∧
      ∀ s, s ∈ failed ↔ Named unreadable s ∧ r.excludes s = false ∧ Reachable unreadable s) ∧
    (∃ skipped : List Segments, d.skipped = skipped.map root.join ∧ skipped.Nodup ∧
      ∀ s, s ∈ skipped ↔ ∃ above name, s = above ++ [name] ∧ name ∈ r.excludeDirs ∧
        IsDirectory files dirs unreadable s ∧ r.excludes above = false ∧ Open unreadable above) ∧
    ∀ (σ ε : Type) (register : String → StateT σ (Except ε) Unit),
      r.walkWith t register =
        (do forM d.addresses register
            return d) := by
  intro t d
  have hdistinct : t.Distinct := distinct_ofPaths
  have hsorted : (d.modules.map FoundModule.segments).Pairwise (· < ·) :=
    WalkRules.pairwise_modules hdistinct
  refine ⟨hsorted, hsorted.imp fun hlt hbelow => ?_, fun found => ?_, ?_, ?_, ?_⟩
  · obtain ⟨rest, rfl⟩ := hbelow
    cases rest with
    | nil => simp at hlt
    | cons name rest => exact lt_asymm hlt (WalkRules.lt_append_cons _ name rest)
  · simp only [d, WalkRules.mem_modules_iff hdistinct, marked_iff, t]
    constructor
    · rintro ⟨s, hs, rfl, hfirst⟩
      exact ⟨s, hs, rfl, hfirst⟩
    · rintro ⟨s, hs, rfl, hfirst⟩
      exact ⟨s, hs, rfl, hfirst⟩
  · refine ⟨(r.failures t).map Prod.fst, ?_, ?_, fun s => ?_⟩
    · rw [WalkRules.errors_walk, List.map_map]
      refine List.map_congr_left fun f hf => ?_
      obtain ⟨s, fault⟩ := f
      obtain ⟨-, rfl⟩ := mem_failures_iff.mp hf
      rfl
    · exact List.pairwise_map.mpr (WalkRules.pairwise_failures hdistinct)
    · simp [t, mem_failures_iff]
  · refine ⟨r.leftOut t, WalkRules.skipped_walk, WalkRules.nodup_leftOut hdistinct, fun s => ?_⟩
    constructor
    · intro hs
      obtain ⟨above, name, rfl⟩ := WalkRules.exists_of_mem_leftOut hs
      exact ⟨above, name, rfl, concat_mem_leftOut_iff.mp hs⟩
    · rintro ⟨above, name, rfl, hs⟩
      exact concat_mem_leftOut_iff.mpr hs
  · intro σ ε register
    exact WalkRules.walkWith_eq

end MemoryTree

end ModulePins
