import ModulePins.DirectoryTree.Basic
import ModulePins.FileStore

/-!
# Trees of a file store

The directories below a path of a file store. Links are entries like files: what they lead to does
not belong to the tree, so no directory is listed twice and no circle of links is walked.
-/

namespace ModulePins

namespace FileStore

/-- The entries of the directory that lies at a path without links. -/
def listPlain (s : FileStore) (p : Path) : Except FileError (List (String × Bool)) :=
  match s.node? p.parts with
  | some .directory =>
    .ok ((s.children p.parts).map fun e =>
      (e.1, match e.2 with | .directory => true | _ => false))
  | _ =>
    match s.list p with
    | .error e => .error e
    | .ok _ => .error ⟨.notADirectory, p.toString⟩

/-- A bound on the number of components of a location that holds something. -/
def depth (s : FileStore) : Nat := depthOf ([] :: s.nodes.map (·.1))

theorem length_lt_depth {s : FileStore} {l : Location} {n : FileNode} (h : s.node? l = some n) :
    l.length < s.depth := by
  apply length_lt_depthOf
  unfold node? at h
  split at h
  · subst l
    exact List.mem_cons_self
  · obtain ⟨e, found, -⟩ := Option.map_eq_some_iff.1 h
    have here : e.1 = l := by simpa using List.find?_some found
    exact List.mem_cons_of_mem _ (here ▸ List.mem_map_of_mem (List.mem_of_find?_eq_some found))

/-- The tree below a path that is absolute and has no links in it. -/
def tree (s : FileStore) (root : Path) : DirectoryTree where
  root := root
  list segments :=
    match s.listPlain ⟨root.anchor, root.parts ++ segments⟩ with
    | .ok entries => .ok (entries.map fun e => ⟨e.1, e.2⟩)
    | .error e => .error (.file e)
  depth := s.depth
  bounded := by
    intro segments entries h
    unfold listPlain at h
    split at h
    · rename_i found
      split at found
      · rename_i dir
        have := length_lt_depth dir
        simp only [List.length_append] at this
        omega
      · split at found <;> cases found
    · cases h

end FileStore

end ModulePins
