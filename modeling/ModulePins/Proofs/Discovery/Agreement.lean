import Mathlib
import ModulePins.Proofs.Address
import ModulePins.Proofs.Discovery.Memory
import ModulePins.Proofs.FileStore.Directories
import ModulePins.Proofs.FileStore.Shape

/-!
# Stored trees as lists of paths

A tree from lists of paths can stand in for the directories of a file store: one list holds the
relative paths of all directories below the root, the other one those of everything else, so links
count as files whatever they lead to. The two trees list a directory in different orders, and they
give different reasons for what is no directory. A walk shows neither: it sorts, and it comes to
directories only.

A path is cut into names at backslashes too, which are ordinary characters for a file store, so the
names below the root must not hold any.

## Main definitions

* `FileStore.pathsBelow` — the relative paths of what lies below a root
* `FileStore.Unescaped` — no name below the root holds a backslash

## Main results

* `FileStore.isDirectory_iff_node?`, `FileStore.isFile_iff_node?` — what the paths say
* `FileStore.visitAt_ofPaths` — the two trees look the same in each directory
* `FileStore.walk_eq_walk_ofPaths` — walks
-/

namespace ModulePins

namespace FileStore

variable {s : FileStore} {root : Path} {r : WalkRules} {names below : Segments} {name : String}
  {n : FileNode} {isDir : Bool} {files dirs : List String} {p : String}

/-! ### The paths of a tree -/

/-- The relative paths of the directories below a root, or of everything else there. -/
def pathsBelow (s : FileStore) (root : Path) (isDir : Bool) : List String :=
  s.nodes.filterMap fun e =>
    if root.parts <+: e.1 ∧ e.1 ≠ root.parts ∧ isDirectory e.2 = isDir then
      some (Text.join "/" (e.1.drop root.parts.length))
    else none

theorem mem_pathsBelow_iff (hs : s.Distinct) : p ∈ s.pathsBelow root isDir ↔
    ∃ names, names ≠ [] ∧ (s.node? (root.parts ++ names)).map isDirectory = some isDir ∧
      Text.join "/" names = p := by
  rw [pathsBelow, List.mem_filterMap]
  constructor
  · rintro ⟨⟨l, n⟩, hmem, hpath⟩
    rw [Option.ite_none_right_eq_some] at hpath
    obtain ⟨⟨⟨names, rfl⟩, hne, hkind⟩, hpath⟩ := hpath
    have hnames : names ≠ [] := fun hnil => hne (by simp [hnil])
    have hnode := (mem_nodes_iff hs (by simp [hnames])).mp hmem
    refine ⟨names, hnames, ?_, ?_⟩
    · rw [hnode, Option.map_some]
      exact congrArg some hkind
    · simpa using hpath
  · rintro ⟨names, hne, hnode, rfl⟩
    obtain ⟨n, hn, rfl⟩ := Option.map_eq_some_iff.mp hnode
    refine ⟨(root.parts ++ names, n), (mem_nodes_iff hs (by simp [hne])).mpr hn, ?_⟩
    simp [hne]

/-- No name below the root holds a backslash. -/
def Unescaped (s : FileStore) (root : Path) : Prop :=
  ∀ names, (s.node? (root.parts ++ names)).isSome → ∀ name ∈ names, '\\' ∉ name.toList

section

variable (hs : s.WellFormed) (hroot : s.node? root.parts = some .directory)
  (hplain : s.Unescaped root) (hfiles : ∀ p, p ∈ files ↔ p ∈ s.pathsBelow root false)
  (hdirs : ∀ p, p ∈ dirs ↔ p ∈ s.pathsBelow root true)

include hs hplain

/-- A path names the place that it was made from. -/
theorem names_relative (h : s.node? (root.parts ++ names) = some n) :
    Address.names (Text.join "/" names) = names := by
  refine Address.names_join (fun name hname => ?_) (hplain names (by simp [h]))
  have hname := hs.named _ _ h name (List.mem_append_right _ hname)
  exact ⟨hname.ne_empty, hname.no_slash⟩

theorem exists_path_iff {paths : List String} (hpaths : ∀ p, p ∈ paths ↔ p ∈ s.pathsBelow root isDir)
    {P : Segments → Prop} : (∃ p ∈ paths, P (Address.names p)) ↔
      ∃ names, names ≠ [] ∧ (s.node? (root.parts ++ names)).map isDirectory = some isDir ∧ P names := by
  simp only [hpaths, mem_pathsBelow_iff hs.distinct]
  constructor
  · rintro ⟨_, ⟨names, hne, hnode, rfl⟩, hP⟩
    obtain ⟨n, hn, -⟩ := Option.map_eq_some_iff.mp hnode
    exact ⟨names, hne, hnode, names_relative hs hplain hn ▸ hP⟩
  · rintro ⟨names, hne, hnode, hP⟩
    obtain ⟨n, hn, -⟩ := Option.map_eq_some_iff.mp hnode
    exact ⟨_, ⟨names, hne, hnode, rfl⟩, (names_relative hs hplain hn).symm ▸ hP⟩

include hroot hfiles hdirs

/-- **The paths name a directory** exactly where there is one. -/
theorem isDirectory_iff_node? : MemoryTree.IsDirectory files dirs [] names ↔
    s.node? (root.parts ++ names) = some .directory := by
  rw [MemoryTree.IsDirectory, List.append_nil,
    exists_path_iff hs hplain hdirs (P := fun below => names <+: below),
    exists_path_iff hs hplain hfiles (P := fun below => names <+: below ∧ names ≠ below)]
  simp only [Option.map_eq_some_iff, isDirectory_iff]
  constructor
  · rintro (rfl | ⟨below, -, ⟨_, hn, rfl⟩, rest, rfl⟩ | ⟨below, -, ⟨n, hn, -⟩, ⟨rest, rfl⟩, hne⟩)
    · rwa [List.append_nil]
    · exact hs.solid hn _ ⟨rest, by rw [List.append_assoc]⟩
    · rcases List.eq_nil_or_concat rest with rfl | ⟨front, last, rfl⟩
      · simp at hne
      · rw [List.concat_eq_append, ← List.append_assoc, ← List.append_assoc] at hn
        exact hs.solid (hs.grounded _ _ _ hn) _ (List.prefix_append _ _)
  · intro hdir
    rcases eq_or_ne names [] with rfl | hne
    · exact .inl rfl
    · exact .inr (.inl ⟨names, hne, ⟨_, hdir, rfl⟩, List.prefix_rfl⟩)

/-- **The paths name something else** exactly where there is something else. -/
theorem isFile_iff_node? : MemoryTree.IsFile files dirs [] names ↔
    (s.node? (root.parts ++ names)).map isDirectory = some false := by
  rw [MemoryTree.IsFile, isDirectory_iff_node? hs hroot hplain hfiles hdirs, MemoryTree.Named,
    exists_path_iff hs hplain hfiles (P := fun below => below = names)]
  constructor
  · rintro ⟨⟨_, -, hnode, rfl⟩, -⟩
    exact hnode
  · intro hnode
    refine ⟨⟨names, ?_, hnode, rfl⟩, fun hdir => ?_⟩
    · rintro rfl
      simp [hroot, isDirectory] at hnode
    · simp [hdir, isDirectory] at hnode

/-! ### Listings -/

/-- What a directory lists in the tree from the paths. -/
theorem mem_entries_ofPaths_iff {e : TreeEntry} :
    e ∈ (MemoryTree.ofPaths root files dirs []).nodes.filterMap (MemoryTree.entryIn? names) ↔
      (s.node? (root.parts ++ names ++ [e.name])).map isDirectory = some e.isDir := by
  obtain ⟨name, isDir⟩ := e
  rw [MemoryTree.mem_entries_iff, List.append_assoc]
  cases isDir with
  | false =>
    rw [MemoryTree.mem_nodes_false]
    exact isFile_iff_node? hs hroot hplain hfiles hdirs
  | true =>
    rw [MemoryTree.mem_nodes_true, isDirectory_iff_node? hs hroot hplain hfiles hdirs]
    simp [isDirectory_iff]

/-- **The two trees look the same in each directory**, in the order of a walk. -/
theorem visitAt_ofPaths (hdir : s.node? (root.parts ++ names) = some .directory) :
    WalkRules.visitAt (MemoryTree.ofPaths root files dirs []).toTree names =
      WalkRules.visitAt (s.tree root) names := by
  have hlist : (MemoryTree.ofPaths root files dirs []).toTree.list names = .ok _ :=
    MemoryTree.list_of_isDirectory ((isDirectory_iff_node? hs hroot hplain hfiles hdirs).mpr hdir)
      (by simp [MemoryTree.Named])
  have hnodup := List.Nodup.of_map _ (MemoryTree.distinct_ofPaths names _ hlist)
  have hperm := (List.perm_ext_iff_of_nodup hnodup (nodup_entries hs.distinct (root.parts ++ names))).mpr
    fun e => by rw [mem_entries_ofPaths_iff hs hroot hplain hfiles hdirs, mem_entries_iff hs.distinct]
  rw [WalkRules.visitAt, WalkRules.visitAt, hlist, list_tree_of_directory hdir]
  exact congrArg (fun entries => Visit.mk names (.ok entries)) (WalkRules.mergeSort_eq_of_perm hperm)

end

/-! ### Walks -/

/-- A walk comes to directories only. -/
theorem directory_of_visited (hs : s.Distinct) (hroot : s.node? root.parts = some .directory)
    (h : r.Visited (s.tree root) names) : s.node? (root.parts ++ names) = some .directory := by
  rcases eq_or_ne names [] with rfl | hne
  · rwa [List.append_nil]
  · exact ((visited_iff hs hne).mp h).2 names List.prefix_rfl

/-- **The walk over a file store agrees with the walk over the lists of its paths.** The root is a
directory, and everything below it has a name without backslashes; there may be links of any kind. A
walk over the stored directories comes to each directory at most once and to nothing else, so it ends
after at most as many steps as there are directories, and it has no errors. It finds the same modules
and leaves out the same directories, in the same order, and writes the same log, as a walk over the
tree in which the files are the relative paths of everything that is no directory, and the directories
are those of all directories. -/
theorem walk_eq_walk_ofPaths (hs : s.WellFormed) (hroot : s.node? root.parts = some .directory)
    (hplain : s.Unescaped root) (hfiles : ∀ p, p ∈ files ↔ p ∈ s.pathsBelow root false)
    (hdirs : ∀ p, p ∈ dirs ↔ p ∈ s.pathsBelow root true) (r : WalkRules) :
    r.walk (s.tree root) = r.walk (MemoryTree.ofPaths root files dirs []).toTree ∧
    (r.walk (s.tree root)).1.errors = [] ∧
    ((r.visits (s.tree root)).map fun v => root.parts ++ v.segments).Nodup ∧
    (∀ v ∈ r.visits (s.tree root), s.node? (root.parts ++ v.segments) = some .directory) ∧
    (r.visits (s.tree root)).length ≤ (s.pathsBelow root true).length + 1 := by
  have hlook {names : Segments} (h : r.Visited (s.tree root) names) :
      WalkRules.visitAt (MemoryTree.ofPaths root files dirs []).toTree names =
        WalkRules.visitAt (s.tree root) names :=
    visitAt_ofPaths hs hroot hplain hfiles hdirs (directory_of_visited hs.distinct hroot h)
  have hvisits {v : Visit} (h : v ∈ r.visits (s.tree root)) :
      s.node? (root.parts ++ v.segments) = some .directory :=
    directory_of_visited hs.distinct hroot (WalkRules.mem_segments_visits.mp (List.mem_map_of_mem h))
  have hnodup : ((r.visits (s.tree root)).map Visit.segments).Nodup :=
    (WalkRules.pairwise_visits (distinct_tree hs.distinct root)).imp fun hlt => hlt.ne
  have hwalk : r.walk (MemoryTree.ofPaths root files dirs []).toTree = r.walk (s.tree root) :=
    WalkRules.walk_congr rfl fun names => hlook
  refine ⟨hwalk.symm, ?_, ?_, fun v => hvisits, ?_⟩
  · rw [WalkRules.errors_walk, List.map_eq_nil_iff, List.eq_nil_iff_forall_not_mem]
    rintro ⟨names, fault⟩ hfailed
    obtain ⟨hvisited, hlist⟩ := WalkRules.mem_failures_iff.mp hfailed
    rw [list_tree_of_directory (directory_of_visited hs.distinct hroot hvisited)] at hlist
    cases hlist
  · have hlocations := hnodup.map (f := (root.parts ++ ·)) fun _ _ => List.append_cancel_left
    rwa [List.map_map] at hlocations
  · have hproper {v : Visit} (hv : v ∈ r.visits (s.tree root)) : ProperNames v.segments :=
      fun name hname =>
        have hname := hs.named _ _ (hvisits hv) name (List.mem_append_right _ hname)
        ⟨hname.ne_empty, hname.no_slash⟩
    have hpaths : ((r.visits (s.tree root)).map fun v => Text.join "/" v.segments).Nodup := by
      rw [List.Nodup, List.pairwise_map] at hnodup ⊢
      exact hnodup.imp_of_mem fun hv hv' hne heq =>
        hne (Path.join_slash_inj (hproper hv) (hproper hv') heq)
    have hbelow : ((r.visits (s.tree root)).map fun v => Text.join "/" v.segments) ⊆
        "" :: s.pathsBelow root true := by
      intro p hp
      obtain ⟨v, hv, rfl⟩ := List.mem_map.mp hp
      rcases eq_or_ne v.segments [] with hnil | hne
      · rw [hnil]
        exact List.mem_cons_self
      · refine List.mem_cons_of_mem _ ((mem_pathsBelow_iff hs.distinct).mpr ⟨v.segments, hne, ?_, rfl⟩)
        rw [hvisits hv]
        rfl
    simpa using (List.subperm_of_subset hpaths hbelow).length_le

/-- Two directories with links: one has the name of a module file and leads nowhere, one leads back to
its directory, and one to itself. -/
def tangle : FileStore where
  nodes :=
    [(["w"], .directory), (["w", "x"], .directory), (["w", "x", "water.yaml"], .link "gone"),
      (["w", "x", "back"], .link "../x"), (["w", "y"], .directory),
      (["w", "y", "round"], .link "round")]
  current := []

theorem wellFormed_tangle : tangle.WellFormed := by
  refine wellFormed_of_nodes (by simp [tangle, Distinct]) (fun e he => ?_) rfl
  simp only [tangle, List.mem_cons, List.not_mem_nil, or_false] at he
  rcases he with rfl | rfl | rfl | rfl | rfl | rfl <;> exact ⟨rfl, by decide⟩

theorem unescaped_tangle : tangle.Unescaped ⟨.root, ["w"]⟩ := by
  intro names hnode
  obtain ⟨n, hn⟩ := Option.isSome_iff_exists.mp hnode
  have hmem := mem_nodes_of_node? (by simp) hn
  simp only [tangle, List.singleton_append, List.mem_cons, Prod.mk.injEq, List.cons.injEq, true_and,
    List.not_mem_nil, or_false] at hmem
  rcases hmem with ⟨rfl, -⟩ | ⟨rfl, -⟩ | ⟨rfl, -⟩ | ⟨rfl, -⟩ | ⟨rfl, -⟩ | ⟨rfl, -⟩ <;> decide

/-- The links count as files. -/
theorem walk_eq_walk_ofPaths_tangle :
    WalkRules.standard.walk (tangle.tree ⟨.root, ["w"]⟩) =
      WalkRules.standard.walk
        (MemoryTree.ofPaths ⟨.root, ["w"]⟩ ["y/round", "x/back", "x/water.yaml"] ["y", "x"] []).toTree ∧
    (WalkRules.standard.walk (tangle.tree ⟨.root, ["w"]⟩)).1.errors = [] ∧
    (WalkRules.standard.visits (tangle.tree ⟨.root, ["w"]⟩)).length ≤ 3 := by
  have hbelow : tangle.pathsBelow ⟨.root, ["w"]⟩ false = ["x/water.yaml", "x/back", "y/round"] := by
    cbv
  have hdirectories : tangle.pathsBelow ⟨.root, ["w"]⟩ true = ["x", "y"] := by cbv
  have hfiles (p : String) : p ∈ ["y/round", "x/back", "x/water.yaml"] ↔
      p ∈ tangle.pathsBelow ⟨.root, ["w"]⟩ false := by
    simp only [hbelow, List.mem_cons, List.not_mem_nil]
    tauto
  have hdirs (p : String) : p ∈ ["y", "x"] ↔ p ∈ tangle.pathsBelow ⟨.root, ["w"]⟩ true := by
    simp [hdirectories, or_comm]
  obtain ⟨hwalk, herrors, -, -, hlength⟩ := walk_eq_walk_ofPaths wellFormed_tangle rfl unescaped_tangle
    hfiles hdirs .standard
  rw [hdirectories] at hlength
  exact ⟨hwalk, herrors, hlength⟩

end FileStore

end ModulePins
