import ModulePins.Proofs.Discovery.Stored
import ModulePins.Proofs.FileStore.Links

/-!
# What does not depend on the bytes of files

Most questions that are put to a file store are about its shape: where a path leads, whether there
is a file or a directory, what a directory lists. They have the same answer in two stores that
differ in nothing but what the files hold.

The order in which a store lists its nodes is no part of its shape, so directories may list their
entries in another order. A walk does not notice, because it sorts them.

## Main definitions

* `FileStore.SameShape` — the same directories, links and files, but for the bytes of the files

## Main results

* `FileStore.SameShape.locate`, `FileStore.SameShape.realPath` — paths
* `FileStore.SameShape.exists?`, `FileStore.SameShape.isFile?`, `FileStore.SameShape.isDir?`
* `FileStore.SameShape.walk` — walks
-/

namespace ModulePins

/-- The node without the bytes of a file. -/
def FileNode.shape : FileNode → FileNode
  | .file _ => .file .empty
  | n => n

namespace FileStore

variable {s s' : FileStore} {l : Location} {t : String} {b : ByteArray}

/-! ### Listings -/

theorem isDirectory_shape (n : FileNode) : isDirectory n.shape = isDirectory n := by
  cases n <;> rfl

/-- What a directory lists, in any order. -/
theorem mem_entries_iff (hs : s.Distinct) {e : TreeEntry} :
    e ∈ (s.children l).map (fun e => (⟨e.1, isDirectory e.2⟩ : TreeEntry)) ↔
      (s.node? (l ++ [e.name])).map isDirectory = some e.isDir := by
  have hne : l ++ [e.name] ≠ [] := by simp
  rw [List.mem_map, Option.map_eq_some_iff]
  constructor
  · rintro ⟨⟨name, n⟩, hchild, rfl⟩
    exact ⟨n, (mem_nodes_iff hs hne).mp (mem_children_iff.mp hchild), rfl⟩
  · rintro ⟨n, hn, hdir⟩
    exact ⟨(e.name, n), mem_children_iff.mpr ((mem_nodes_iff hs hne).mpr hn), by rw [hdir]⟩

theorem nodup_entries (hs : s.Distinct) (l : Location) :
    ((s.children l).map fun e => (⟨e.1, isDirectory e.2⟩ : TreeEntry)).Nodup := by
  have hnames := nodup_children hs l
  rw [List.Nodup, List.pairwise_map] at hnames ⊢
  exact hnames.imp fun hne heq => hne (TreeEntry.mk.inj heq).1

/-- Whether a directory can be listed, by the shape of what its path leads to. -/
def listable (p : Path) : Option FileNode → Except FileError Unit
  | none => .error ⟨.notFound, p.toString⟩
  | some .directory => .ok ()
  | some _ => .error ⟨.notADirectory, p.toString⟩

theorem list_map (s : FileStore) (p : Path) : (s.list p).map (fun _ => ()) =
    (s.locate p true).bind fun l => listable p ((s.node? l).map FileNode.shape) := by
  rw [FileStore.list]
  rcases s.locate p true with e | l
  · rfl
  · simp only [bind, Except.bind]
    rcases s.node? l with _ | (_ | b | t) <;> rfl

/-- Why a path without links is not listed, unless it is a directory. -/
def refusal (s : FileStore) (p : Path) : FileError :=
  match (s.list p).map fun _ => () with
  | .error e => e
  | .ok _ => ⟨.notADirectory, p.toString⟩

theorem list_tree_of_not_directory {root : Path} {names : Segments}
    (hdir : s.node? (root.parts ++ names) ≠ some .directory) :
    (s.tree root).list names =
      .error (.file (refusal s ⟨root.anchor, root.parts ++ names⟩)) := by
  have hplain : s.listPlain ⟨root.anchor, root.parts ++ names⟩ =
      .error (refusal s ⟨root.anchor, root.parts ++ names⟩) := by
    rw [listPlain, refusal]
    split
    · exact absurd ‹_› hdir
    · cases s.list ⟨root.anchor, root.parts ++ names⟩ <;> rfl
  rw [tree]
  simp only [hplain]

/-! ### Kinds -/

theorem isFile?_eq_map (s : FileStore) (p : Path) : s.isFile? p = (s.kind? p).map fun
    | some (.file _) => true
    | _ => false := by
  rw [isFile?]
  rcases s.kind? p with e | (_ | n)
  · rfl
  · rfl
  · cases n <;> rfl

theorem isDir?_eq_map (s : FileStore) (p : Path) : s.isDir? p = (s.kind? p).map fun
    | some .directory => true
    | _ => false := by
  rw [isDir?]
  rcases s.kind? p with e | (_ | n)
  · rfl
  · rfl
  · cases n <;> rfl

/-! ### Stores of the same shape -/

/-- The same directories, links and files, but for the bytes of the files. -/
structure SameShape (s s' : FileStore) : Prop where
  current : s'.current = s.current
  shape : ∀ l, (s'.node? l).map FileNode.shape = (s.node? l).map FileNode.shape

namespace SameShape

theorem symm (h : SameShape s s') : SameShape s' s := ⟨h.current.symm, fun l => (h.shape l).symm⟩

/-! ### Nodes -/

theorem missing (h : SameShape s s') (hl : s.node? l = none) : s'.node? l = none := by
  have hshape := h.shape l
  rwa [hl, Option.map_none, Option.map_eq_none_iff] at hshape

theorem directory (h : SameShape s s') (hl : s.node? l = some .directory) :
    s'.node? l = some .directory := by
  have hshape := h.shape l
  rw [hl, Option.map_some, Option.map_eq_some_iff] at hshape
  obtain ⟨n, hn, heq⟩ := hshape
  cases n <;> cases heq
  exact hn

theorem link (h : SameShape s s') (hl : s.node? l = some (.link t)) :
    s'.node? l = some (.link t) := by
  have hshape := h.shape l
  rw [hl, Option.map_some, Option.map_eq_some_iff] at hshape
  obtain ⟨n, hn, heq⟩ := hshape
  cases n <;> cases heq
  exact hn

theorem file (h : SameShape s s') (hl : s.node? l = some (.file b)) :
    ∃ b', s'.node? l = some (.file b') := by
  have hshape := h.shape l
  rw [hl, Option.map_some, Option.map_eq_some_iff] at hshape
  obtain ⟨n, hn, heq⟩ := hshape
  cases n <;> cases heq
  exact ⟨_, hn⟩

theorem sameLinks (h : SameShape s s') : SameLinks s s' :=
  ⟨⟨h.current, fun _ => h.directory, fun _ _ => h.symm.link⟩, fun _ _ => h.link⟩

theorem start (h : SameShape s s') (p : Path) : s'.start p = s.start p := start_eq h.current p

/-! ### Paths -/

theorem locateFrom (h : SameShape s s') (followLast : Bool) (links : ℕ) (here : Location)
    (rest : List String) :
    locateFrom s' followLast links here rest = locateFrom s followLast links here rest := by
  fun_induction FileStore.locateFrom s followLast links here rest with
  | case1 => rw [FileStore.locateFrom]
  | case2 links here rest ih => rw [FileStore.locateFrom, if_pos rfl, ih]
  | case3 links here name rest hup hlong => rw [FileStore.locateFrom, if_neg hup, if_pos hlong]
  | case4 links here name rest hup hshort there hnode hrest =>
    have hnode' : s'.node? (here ++ [name]) = none := h.missing hnode
    rw [FileStore.locateFrom, if_neg hup, if_neg hshort]
    simp only [hnode']
    exact if_pos hrest
  | case5 links here name rest hup hshort there hnode hrest =>
    have hnode' : s'.node? (here ++ [name]) = none := h.missing hnode
    rw [FileStore.locateFrom, if_neg hup, if_neg hshort]
    simp only [hnode']
    exact if_neg hrest
  | case6 links here name rest hup hshort there b hnode hrest =>
    obtain ⟨b', hnode'⟩ := h.file hnode
    change s'.node? (here ++ [name]) = _ at hnode'
    rw [FileStore.locateFrom, if_neg hup, if_neg hshort]
    simp only [hnode']
    exact if_pos hrest
  | case7 links here name rest hup hshort there b hnode hrest =>
    obtain ⟨b', hnode'⟩ := h.file hnode
    change s'.node? (here ++ [name]) = _ at hnode'
    rw [FileStore.locateFrom, if_neg hup, if_neg hshort]
    simp only [hnode']
    exact if_neg hrest
  | case8 links here name rest hup hshort there hnode ih =>
    rw [locateFrom_directory hup hshort (h.directory hnode), ih]
  | case9 links here name rest hup hshort there t hnode hrest =>
    rw [locateFrom_link hup hshort (h.link hnode), if_pos hrest]
  | case10 here name rest hup hshort there t hnode hrest =>
    rw [locateFrom_link hup hshort (h.link hnode), if_neg hrest]
  | case11 here name rest hup hshort there t hnode hrest links path ih =>
    rw [locateFrom_link hup hshort (h.link hnode), if_neg hrest]
    exact ih

theorem locate (h : SameShape s s') (p : Path) (followLast : Bool) :
    s'.locate p followLast = s.locate p followLast := by
  rw [FileStore.locate, FileStore.locate, h.start, h.locateFrom]

theorem realPath (h : SameShape s s') (p : Path) : s'.realPath p = s.realPath p := by
  have hreal : realFrom s' [] (s'.start p) p.parts (s'.nodes.length + 1) =
      realFrom s [] (s.start p) p.parts (s.nodes.length + 1) := by
    rw [h.start]
    exact (realFrom_eq h.sameLinks _ (opened_nil s) (by simp) (by simp)).symm
  rw [FileStore.realPath, FileStore.realPath, hreal]
  simp only [h.locate]

/-! ### Questions -/

theorem kind? (h : SameShape s s') (p : Path) :
    (s'.kind? p).map (Option.map FileNode.shape) = (s.kind? p).map (Option.map FileNode.shape) := by
  rw [FileStore.kind?, FileStore.kind?, h.locate]
  cases s.locate p true with
  | error e => rfl
  | ok l => exact congrArg Except.ok (h.shape l)

/-- A question about the shape of what a path leads to. -/
theorem kind?_map {α : Type} (h : SameShape s s') (p : Path) {ask : Option FileNode → α}
    (hask : ∀ n, ask (n.map FileNode.shape) = ask n) : (s'.kind? p).map ask = (s.kind? p).map ask := by
  have hcomp : ask = ask ∘ Option.map FileNode.shape := funext fun n => (hask n).symm
  have hkind := congrArg (Except.map ask) (h.kind? p)
  rw [hcomp]
  cases hs : s.kind? p <;> cases hs' : s'.kind? p <;> rw [hs, hs'] at hkind <;> exact hkind

theorem exists? (h : SameShape s s') (p : Path) : s'.exists? p = s.exists? p := by
  have hask (n : Option FileNode) : (n.map FileNode.shape).isSome = n.isSome := by cases n <;> rfl
  exact h.kind?_map p hask

theorem isFile? (h : SameShape s s') (p : Path) : s'.isFile? p = s.isFile? p := by
  rw [isFile?_eq_map, isFile?_eq_map]
  exact h.kind?_map p fun n => by rcases n with _ | (_ | _ | _) <;> rfl

theorem isDir? (h : SameShape s s') (p : Path) : s'.isDir? p = s.isDir? p := by
  rw [isDir?_eq_map, isDir?_eq_map]
  exact h.kind?_map p fun n => by rcases n with _ | (_ | _ | _) <;> rfl

/-! ### Walks -/

theorem perm_entries (h : SameShape s s') (hs : s.Distinct) (hs' : s'.Distinct) (l : Location) :
    ((s'.children l).map fun e => (⟨e.1, isDirectory e.2⟩ : TreeEntry)).Perm
      ((s.children l).map fun e => ⟨e.1, isDirectory e.2⟩) := by
  refine (List.perm_ext_iff_of_nodup (nodup_entries hs' l) (nodup_entries hs l)).mpr fun e => ?_
  have hcomp : isDirectory = isDirectory ∘ FileNode.shape :=
    funext fun n => (isDirectory_shape n).symm
  rw [mem_entries_iff hs, mem_entries_iff hs', hcomp, ← Option.map_map, ← Option.map_map, h.shape]

theorem refusal_eq (h : SameShape s s') (p : Path) : refusal s' p = refusal s p := by
  have hlist : (s'.list p).map (fun _ => ()) = (s.list p).map fun _ => () := by
    simp only [list_map, h.locate, h.shape]
  rw [refusal, refusal, hlist]

/-- **Walks** over stores of the same shape come to the same. -/
theorem walk (h : SameShape s s') (hs : s.Distinct) (hs' : s'.Distinct) (r : WalkRules)
    (root : Path) : r.walk (s'.tree root) = r.walk (s.tree root) := by
  refine WalkRules.walk_congr rfl fun names _ => congrArg (Visit.mk names) ?_
  by_cases hdir : s.node? (root.parts ++ names) = some .directory
  · rw [list_tree_of_directory hdir, list_tree_of_directory (h.directory hdir)]
    exact congrArg Except.ok (WalkRules.mergeSort_eq_of_perm (h.perm_entries hs hs' _))
  · have hdir' : s'.node? (root.parts ++ names) ≠ some .directory := fun hl =>
      hdir (h.symm.directory hl)
    rw [list_tree_of_not_directory hdir, list_tree_of_not_directory hdir', h.refusal_eq]

end SameShape

end FileStore

end ModulePins
