import ModulePins.Address

/-!
# Directory trees

What discovery walks over: directories that are addressed by the names leading to them from the
root of the tree. Listing a directory gives its entries or says why it cannot be read. No tree is
endless: beyond its depth nothing can be listed, which is why a walk comes to an end.
-/

namespace ModulePins

/-- An entry of a directory. -/
structure TreeEntry where
  name : String
  isDir : Bool
  deriving DecidableEq, Repr, Inhabited

namespace TreeEntry

/-- The order of a walk: files before directories, and each kind by name. -/
def before (a b : TreeEntry) : Bool :=
  if a.isDir = b.isDir then decide (a.name ≤ b.name) else b.isDir

end TreeEntry

/-- Why a directory cannot be listed. -/
inductive ListingFault where
  /-- The directory may not be read. -/
  | denied (path : Path)
  /-- There is no such directory. -/
  | missing (path : Path)
  /-- The file store refuses. -/
  | file (error : FileError)
  deriving DecidableEq, Repr

namespace ListingFault

def message : ListingFault → String
  | denied p => "Permission denied: " ++ p.toString
  | missing p => "No such directory: " ++ p.toString
  | file e => (Fault.file e).message

end ListingFault

/-- One more than the greatest length of a list of names. -/
def depthOf (nodes : List Segments) : Nat := (nodes.map List.length).foldr max 0 + 1

theorem length_lt_depthOf {nodes : List Segments} {segments : Segments} (h : segments ∈ nodes) :
    segments.length < depthOf nodes := by
  induction nodes with
  | nil => cases h
  | cons n ns ih =>
    simp only [depthOf, List.map_cons, List.foldr_cons] at ih ⊢
    rcases List.mem_cons.1 h with rfl | h
    · omega
    · have := ih h
      omega

/-- A tree of directories. -/
structure DirectoryTree where
  /-- The path of the root. -/
  root : Path
  /-- The entries of the directory at the given names. -/
  list : Segments → Except ListingFault (List TreeEntry)
  /-- A bound on the number of names that lead to a directory. -/
  depth : Nat
  /-- Only directories within the depth can be listed. -/
  bounded : ∀ segments entries, list segments = .ok entries → segments.length < depth

namespace DirectoryTree

/-- The path of a node. -/
def pathOf (t : DirectoryTree) (segments : Segments) : Path := t.root.join segments

end DirectoryTree

end ModulePins
