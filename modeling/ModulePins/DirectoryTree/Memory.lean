import ModulePins.DirectoryTree.Basic

/-!
# Trees from lists of paths

A tree that is described by the paths of its files, its directories and the directories that cannot
be read. Whatever leads to a path is a directory, and a path that is both a file and a directory is
a directory. Entries are listed in the order in which the paths first name them.
-/

namespace ModulePins

/-- A tree described by paths: its nodes below the root, with a mark for directories. -/
structure MemoryTree where
  root : Path
  nodes : List (Segments × Bool)
  unreadable : List Segments
  deriving Repr

namespace MemoryTree

/-- Marks a node; one that was a directory before stays one. -/
def mark (segments : Segments) (isDir : Bool) :
    List (Segments × Bool) → List (Segments × Bool)
  | [] => [(segments, isDir)]
  | n :: ns =>
    if n.1 = segments then (n.1, n.2 || isDir) :: ns else n :: mark segments isDir ns

/-- Marks the nodes from `above` down to the end of the names. -/
def addFrom (above : Segments) (isDir : Bool) (nodes : List (Segments × Bool)) :
    Segments → List (Segments × Bool)
  | [] => nodes
  | name :: rest =>
    addFrom (above ++ [name]) isDir (mark (above ++ [name]) (isDir || !rest.isEmpty) nodes) rest

/-- The tree in which `files` are files, `dirs` are directories, and the directories `unreadable`
cannot be read. -/
def ofPaths (root : Path) (files dirs unreadable : List String) : MemoryTree :=
  let add (isDir : Bool) (nodes : List (Segments × Bool)) (paths : List String) :=
    paths.foldl (fun nodes p => addFrom [] isDir nodes (Address.names p)) nodes
  ⟨root, add false (add true (add true [] dirs) unreadable) files,
    unreadable.map Address.names⟩

/-- Is there a directory at the names? -/
def isDir (t : MemoryTree) (segments : Segments) : Bool :=
  segments.isEmpty || t.nodes.contains (segments, true)

/-- The entry that a node is in the directory at the names. -/
def entryIn? (segments : Segments) (node : Segments × Bool) : Option TreeEntry :=
  match node.1.getLast? with
  | some name => if node.1.dropLast = segments then some ⟨name, node.2⟩ else none
  | none => none

/-- The entries of a directory. -/
def list (t : MemoryTree) (segments : Segments) : Except ListingFault (List TreeEntry) :=
  if t.unreadable.contains segments then .error (.denied (t.root.join segments))
  else if t.isDir segments then .ok (t.nodes.filterMap (entryIn? segments))
  else .error (.missing (t.root.join segments))

/-- A bound on the number of names that lead to a directory. -/
def depth (t : MemoryTree) : Nat := depthOf ([] :: t.nodes.map (·.1))

theorem length_lt_depth {t : MemoryTree} {segments : Segments} (h : t.isDir segments = true) :
    segments.length < t.depth := by
  apply length_lt_depthOf
  simp only [isDir, Bool.or_eq_true, List.isEmpty_iff, List.contains_iff_mem] at h
  rcases h with rfl | h
  · exact List.mem_cons_self
  · exact List.mem_cons_of_mem _ (List.mem_map_of_mem h)

/-- The tree as discovery sees it. -/
def toTree (t : MemoryTree) : DirectoryTree where
  root := t.root
  list := t.list
  depth := t.depth
  bounded := by
    intro segments entries h
    apply length_lt_depth
    simp only [list] at h
    split at h
    · cases h
    · split at h
      · assumption
      · cases h

end MemoryTree

end ModulePins
