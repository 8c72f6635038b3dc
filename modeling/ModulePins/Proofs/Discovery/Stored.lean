import ModulePins.DirectoryTree.Stored
import ModulePins.Proofs.Discovery.Walk
import ModulePins.Proofs.FileStore.Nodes

/-!
# Walks over the directories of a file store

A walk over stored directories, in terms of what the store holds at each location. Links count as
files, so what they lead to is not walked.

A store is a list of nodes, and `FileStore.Distinct` says that no location has two of them, which is
what a file system is. It is what makes a location and its node the same thing, and no directory
list a name twice.

## Main definitions

* `FileStore.Distinct` — one node for each location
* `FileStore.HoldsModule` — a directory below the root that a walk takes for a module's

## Main results

* `FileStore.marked_iff` — the modules' directories
* `FileStore.distinct_tree`
-/

namespace ModulePins

namespace FileStore

variable {s : FileStore} {root : Path} {r : WalkRules} {l : Location} {n : FileNode}
  {names : Segments} {name : String}

/-- No location has two nodes. -/
def Distinct (s : FileStore) : Prop := (s.nodes.map Prod.fst).Nodup

theorem mem_nodes_iff (hs : s.Distinct) (hl : l ≠ []) : (l, n) ∈ s.nodes ↔ s.node? l = some n := by
  rw [node?_of_ne_nil hl, Option.map_eq_some_iff]
  constructor
  · intro hmem
    cases hfind : s.nodes.find? fun e => e.1 = l with
    | none =>
      have := List.find?_eq_none.mp hfind _ hmem
      simp at this
    | some e =>
      have he : e.1 = l := by simpa using List.find?_some hfind
      have hsame := List.inj_on_of_nodup_map hs (List.mem_of_find?_eq_some hfind) hmem he
      exact ⟨e, rfl, by rw [hsame]⟩
  · rintro ⟨e, hfind, rfl⟩
    have he : e.1 = l := by simpa using List.find?_some hfind
    exact he ▸ List.mem_of_find?_eq_some hfind

/-! ### Children -/

/-- The child of a location that a node is. -/
def childOf? (l : Location) (e : Location × FileNode) : Option (String × FileNode) :=
  match e.1.reverse with
  | name :: above => if above.reverse = l then some (name, e.2) else none
  | [] => none

theorem children_eq (s : FileStore) (l : Location) :
    s.children l = s.nodes.filterMap (childOf? l) := rfl

theorem childOf?_eq_some {e : Location × FileNode} :
    childOf? l e = some (name, n) ↔ e = (l ++ [name], n) := by
  obtain ⟨here, node⟩ := e
  rcases List.eq_nil_or_concat here with rfl | ⟨above, last, rfl⟩
  · simp [childOf?]
  · rw [childOf?, List.concat_eq_append, List.reverse_append, List.reverse_singleton,
      List.singleton_append]
    simp [and_assoc]

theorem mem_children_iff : (name, n) ∈ s.children l ↔ (l ++ [name], n) ∈ s.nodes := by
  simp only [children_eq, List.mem_filterMap, childOf?_eq_some, exists_eq_right]

theorem nodup_children (hs : s.Distinct) (l : Location) : ((s.children l).map Prod.fst).Nodup := by
  rw [List.Nodup, List.pairwise_map, children_eq]
  refine List.Pairwise.filterMap _ (fun e e' hne c hc c' hc' hname => ?_) (List.pairwise_map.mp hs)
  obtain rfl := childOf?_eq_some.mp hc
  obtain rfl := childOf?_eq_some.mp hc'
  exact hne (by rw [hname])

/-! ### Listings -/

/-- Is the node a directory? -/
def isDirectory : FileNode → Bool
  | .directory => true
  | _ => false

theorem isDirectory_iff : isDirectory n = true ↔ n = .directory := by
  cases n <;> simp [isDirectory]

/-- What a directory lists. -/
theorem list_tree_of_directory (h : s.node? (root.parts ++ names) = some .directory) :
    (s.tree root).list names =
      .ok ((s.children (root.parts ++ names)).map fun e => ⟨e.1, isDirectory e.2⟩) := by
  have hlist : s.listPlain ⟨root.anchor, root.parts ++ names⟩ =
      .ok ((s.children (root.parts ++ names)).map fun e => (e.1, isDirectory e.2)) := by
    rw [listPlain]
    simp only [h]
    rfl
  rw [tree]
  simp only [hlist, List.map_map, Function.comp_def]

/-- Only directories are listed. -/
theorem directory_of_list_tree {entries : List TreeEntry}
    (h : (s.tree root).list names = .ok entries) :
    s.node? (root.parts ++ names) = some .directory := by
  rw [tree] at h
  dsimp only at h
  split at h
  · rename_i hlist
    rw [listPlain] at hlist
    split at hlist
    · assumption
    · split at hlist <;> cases hlist
  · cases h

/-- **The entries of a directory**, by what the store holds there. -/
theorem exists_entry_iff (hs : s.Distinct) {isDir : Bool} :
    (∃ entries, (s.tree root).list names = .ok entries ∧ ⟨name, isDir⟩ ∈ entries) ↔
      s.node? (root.parts ++ names) = some .directory ∧
        ∃ n, s.node? (root.parts ++ names ++ [name]) = some n ∧ isDirectory n = isDir := by
  have hne : root.parts ++ names ++ [name] ≠ [] := by simp
  constructor
  · rintro ⟨entries, hlist, hmem⟩
    have hdir := directory_of_list_tree hlist
    rw [list_tree_of_directory hdir] at hlist
    obtain rfl := Except.ok.inj hlist
    obtain ⟨⟨child, n⟩, hchild, heq⟩ := List.mem_map.mp hmem
    obtain ⟨rfl, rfl⟩ := TreeEntry.mk.inj heq
    exact ⟨hdir, n, (mem_nodes_iff hs hne).mp (mem_children_iff.mp hchild), rfl⟩
  · rintro ⟨hdir, n, hn, rfl⟩
    refine ⟨_, list_tree_of_directory hdir, List.mem_map.mpr ⟨(name, n), ?_, rfl⟩⟩
    exact mem_children_iff.mpr ((mem_nodes_iff hs hne).mpr hn)

theorem distinct_tree (hs : s.Distinct) (root : Path) : (s.tree root).Distinct := by
  intro names entries hlist
  rw [list_tree_of_directory (directory_of_list_tree hlist)] at hlist
  obtain rfl := Except.ok.inj hlist
  rw [List.map_map]
  exact nodup_children hs _

/-! ### Walks -/

/-- The names lead from the root through directories. -/
def Leads (s : FileStore) (root : Path) (names : Segments) : Prop :=
  ∀ above, above <+: names → s.node? (root.parts ++ above) = some .directory

/-- **The directories below the root that a walk comes to.** -/
theorem visited_iff (hs : s.Distinct) (hnames : names ≠ []) :
    r.Visited (s.tree root) names ↔ r.excludes names = false ∧ s.Leads root names := by
  rw [WalkRules.visited_iff]
  refine and_congr_right fun _ => ?_
  simp only [exists_entry_iff hs, isDirectory_iff, exists_eq_right]
  constructor
  · intro hway above hbelow
    rcases List.eq_nil_or_concat above with rfl | ⟨front, last, rfl⟩
    · obtain ⟨first, rest, rfl⟩ := List.exists_cons_of_ne_nil hnames
      exact (hway [] first ⟨rest, rfl⟩).1
    · rw [List.concat_eq_append] at hbelow ⊢
      rw [← List.append_assoc]
      exact (hway front last hbelow).2
  · intro hleads above name hbelow
    refine ⟨hleads above ((List.prefix_append _ _).trans hbelow), ?_⟩
    rw [List.append_assoc]
    exact hleads _ hbelow

/-- The directory lies below the root without an excluded name on the way, and holds an entry with
the name of a module file that is not a directory. -/
structure HoldsModule (s : FileStore) (root : Path) (r : WalkRules) (names : Segments) : Prop where
  below : names ≠ []
  included : r.excludes names = false
  leads : s.Leads root names
  entry : ∃ n, s.node? (root.parts ++ names ++ [r.moduleFile]) = some n ∧ n ≠ .directory

/-- **The directories that a walk takes for those of modules.** -/
theorem marked_iff (hs : s.Distinct) : r.Marked (s.tree root) names ↔ s.HoldsModule root r names := by
  rw [WalkRules.Marked, exists_entry_iff hs]
  constructor
  · rintro ⟨hvisited, hnames, -, n, hn, hkind⟩
    obtain ⟨hincluded, hleads⟩ := (visited_iff hs hnames).mp hvisited
    exact ⟨hnames, hincluded, hleads, n, hn, by simp [← isDirectory_iff, hkind]⟩
  · rintro ⟨hnames, hincluded, hleads, n, hn, hkind⟩
    refine ⟨(visited_iff hs hnames).mpr ⟨hincluded, hleads⟩, hnames, ?_, n, hn, ?_⟩
    · exact hleads names List.prefix_rfl
    · rwa [← Bool.not_eq_true, isDirectory_iff]

end FileStore

end ModulePins
