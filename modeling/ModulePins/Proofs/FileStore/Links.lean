import Mathlib.Data.List.Induction
import Mathlib.Data.List.Perm.Subperm
import ModulePins.Proofs.FileStore.Operations

/-!
# Paths through links

Where a path leads when links are in its way. `Follows s here rest l n` is the look-up of the library
as a relation, with the number `n` of links that are followed and without a limit on it. The number
is what relates the two ways in which a store resolves a path: the look-up spends one link at a
time, and the real path looks out for circles. A walk over finitely many links meets none of them
while it is still under way, because the walk behind it would be shorter than itself.

A real path depends on the links alone, so it stays as long as they do; that is `SameLinks`, and all
operations on regular files and directories have it. Then a path that leads somewhere later had the
same real path before, even if directories on its way were missing then.

## Main definitions

* `FileStore.SameLinks` — the links are the same, and no directory has gone
* `FileStore.Follows` — the place that components lead to, with the number of links on the way
* `FileStore.Homed` — the directory that relative paths start from is named as the system names it

## Main results

* `FileStore.realPath_of_locate` — a path that leads somewhere leads to its real path
* `FileStore.SameLinks.realPath` — a real path has always been the same
* `FileStore.locate_mono` — a path that leads somewhere goes on to do so
-/

namespace ModulePins

namespace FileStore

variable {s s' s'' : FileStore} {p : Path} {here l l' : Location} {rest xs ys : List String}
  {name t : String} {followLast : Bool} {b : ByteArray} {m n links : ℕ}

/-! ### Stores with the same links -/

/-- The links are the same, and no directory has gone. -/
structure SameLinks (s s' : FileStore) : Prop extends Keeps s s' where
  kept : ∀ l t, s.node? l = some (.link t) → s'.node? l = some (.link t)

theorem SameLinks.refl (s : FileStore) : SameLinks s s := ⟨Keeps.refl s, fun _ _ h => h⟩

theorem SameLinks.trans (h : SameLinks s s') (h' : SameLinks s' s'') : SameLinks s s'' :=
  ⟨h.toKeeps.trans h'.toKeeps, fun l t hl => h'.kept l t (h.kept l t hl)⟩

theorem Extends.sameLinks (h : Extends s s') : SameLinks s s' :=
  ⟨h.keeps, fun l _ hl => h.kept l _ hl⟩

/-- A location that holds neither a directory nor a link. -/
def Plain (s : FileStore) (l : Location) : Prop :=
  s.node? l ≠ some .directory ∧ ∀ t, s.node? l ≠ some (.link t)

theorem SameLinks.put (h : Plain s l) (b : ByteArray) : SameLinks s (s.put l (.file b)) := by
  refine ⟨Keeps.put h.1 fun t ht => (by cases ht), fun l' t hl' => ?_⟩
  rcases eq_or_ne l' [] with rfl | hne
  · rwa [node?_nil] at hl' ⊢
  · rw [node?_put s l _ hne, if_neg]
    · exact hl'
    · rintro rfl
      exact h.2 t hl'

theorem SameLinks.drop (h : Plain s l) : SameLinks s (s.drop l) := by
  refine ⟨Keeps.drop h.1, fun l' t hl' => ?_⟩
  rcases eq_or_ne l' [] with rfl | hne
  · rwa [node?_nil] at hl' ⊢
  · rw [node?_drop s l hne, if_neg]
    · exact hl'
    · rintro rfl
      exact h.2 t hl'

/-! ### Following -/

/-- Where the target of a link starts that lies in a directory. -/
def base (here : Location) (target : String) : Location :=
  if (Path.ofString target).isAbsolute then [] else here

/-- The components lead from `here` to `l`, and `n` links are followed on the way. -/
inductive Follows (s : FileStore) : Location → List String → Location → ℕ → Prop
  | done {here : Location} : Follows s here [] here 0
  | up {here l : Location} {rest : List String} {n : ℕ} (h : Follows s here.dropLast rest l n) :
      Follows s here (".." :: rest) l n
  | down {here l : Location} {name : String} {rest : List String} {n : ℕ} (hup : name ≠ "..")
      (hshort : ¬ nameLimit < name.utf8ByteSize) (hnode : ∀ t, s.node? (here ++ [name]) ≠ some (.link t))
      (h : Follows s (here ++ [name]) rest l n) : Follows s here (name :: rest) l n
  | link {here mid l : Location} {name t : String} {rest : List String} {m n : ℕ} (hup : name ≠ "..")
      (hshort : ¬ nameLimit < name.utf8ByteSize) (hnode : s.node? (here ++ [name]) = some (.link t))
      (htarget : Follows s (base here t) (Path.ofString t).parts mid m) (h : Follows s mid rest l n) :
      Follows s here (name :: rest) l (m + n + 1)

theorem Follows.of_append (h : Follows s here (xs ++ ys) l n) :
    ∃ mid i j, Follows s here xs mid i ∧ Follows s mid ys l j ∧ n = i + j := by
  induction xs generalizing here n with
  | nil => exact ⟨here, 0, n, .done, h, (Nat.zero_add n).symm⟩
  | cons name xs ih =>
    cases h with
    | up h =>
      obtain ⟨mid, i, j, hx, hy, rfl⟩ := ih h
      exact ⟨mid, i, j, .up hx, hy, rfl⟩
    | down hup hshort hnode h =>
      obtain ⟨mid, i, j, hx, hy, rfl⟩ := ih h
      exact ⟨mid, i, j, .down hup hshort hnode hx, hy, rfl⟩
    | link hup hshort hnode htarget h =>
      obtain ⟨mid, i, j, hx, hy, rfl⟩ := ih h
      exact ⟨mid, _, j, .link hup hshort hnode htarget hx, hy, by omega⟩

theorem Follows.append (h : Follows s here xs l' m) (h' : Follows s l' ys l n) :
    Follows s here (xs ++ ys) l (m + n) := by
  induction h with
  | done => simpa using h'
  | up _ ih => exact .up (ih h')
  | down hup hshort hnode _ ih => exact .down hup hshort hnode (ih h')
  | @link here mid l' name t rest i j hup hshort hnode htarget _ _ ih =>
    rw [show i + j + 1 + n = i + (j + n) + 1 by omega]
    exact .link hup hshort hnode htarget (ih h')

theorem Follows.unique (h : Follows s here rest l n) :
    ∀ {l' : Location} {n' : ℕ}, Follows s here rest l' n' → l = l' ∧ n = n' := by
  induction h with
  | done =>
    intro l' n' h'
    cases h'
    exact ⟨rfl, rfl⟩
  | up _ ih =>
    intro l' n' h'
    cases h' with
    | up h' => exact ih h'
    | down hup => exact absurd rfl hup
    | link hup => exact absurd rfl hup
  | down hup _ hnode _ ih =>
    intro l' n' h'
    cases h' with
    | up => exact absurd rfl hup
    | down _ _ _ h' => exact ih h'
    | link _ _ hnode' => exact absurd hnode' (hnode _)
  | link hup _ hnode _ _ ihtarget ih =>
    intro l' n' h'
    cases h' with
    | up => exact absurd rfl hup
    | down _ _ hnode' => exact absurd hnode (hnode' _)
    | link _ _ hnode' htarget' h' =>
      rw [hnode] at hnode'
      cases hnode'
      obtain ⟨rfl, rfl⟩ := ihtarget htarget'
      obtain ⟨rfl, rfl⟩ := ih h'
      exact ⟨rfl, rfl⟩

/-! ### Looking up -/

section Steps

variable (hup : name ≠ "..") (hshort : ¬ nameLimit < name.utf8ByteSize)
include hup hshort

theorem locateFrom_directory (hnode : s.node? (here ++ [name]) = some .directory) :
    locateFrom s followLast links here (name :: rest) =
      locateFrom s followLast links (here ++ [name]) rest := by
  rw [locateFrom, if_neg hup, if_neg hshort]
  simp only [hnode]

/-- The last component may be anything but a link. -/
theorem locateFrom_last (hnode : ∀ t, s.node? (here ++ [name]) ≠ some (.link t)) :
    locateFrom s followLast links here [name] = .ok (here ++ [name]) := by
  rw [locateFrom, if_neg hup, if_neg hshort]
  cases hthere : s.node? (here ++ [name]) with
  | none => simp only [hthere, List.isEmpty_nil, if_true]
  | some n =>
    cases n with
    | directory => simp only [hthere, locateFrom]
    | file b => simp only [hthere, List.isEmpty_nil, if_true]
    | link t => exact absurd hthere (hnode t)

theorem locateFrom_link (hnode : s.node? (here ++ [name]) = some (.link t)) :
    locateFrom s followLast links here (name :: rest) =
      if rest.isEmpty && !followLast then .ok (here ++ [name])
      else
        match links with
        | 0 => .error .tooManyLinks
        | links + 1 =>
          locateFrom s followLast links (base here t) ((Path.ofString t).parts ++ rest) := by
  rw [locateFrom, if_neg hup, if_neg hshort]
  simp only [hnode]
  rfl

end Steps

/-- A look-up that leads somewhere follows finitely many links. -/
theorem follows_of_locateFrom (h : locateFrom s true links here rest = .ok l) :
    ∃ n, Follows s here rest l n := by
  fun_induction locateFrom s true links here rest with
  | case1 =>
    cases h
    exact ⟨0, .done⟩
  | case2 links here rest ih =>
    obtain ⟨n, hn⟩ := ih h
    exact ⟨n, .up hn⟩
  | case4 links here name rest hup hshort there hnode hlast =>
    obtain rfl := Except.ok.inj h
    rw [List.isEmpty_iff.mp hlast]
    exact ⟨0, .down hup hshort (fun t ht => by rw [hnode] at ht; cases ht) .done⟩
  | case6 links here name rest hup hshort there b hnode hlast =>
    obtain rfl := Except.ok.inj h
    rw [List.isEmpty_iff.mp hlast]
    exact ⟨0, .down hup hshort (fun t ht => by rw [hnode] at ht; cases ht) .done⟩
  | case8 links here name rest hup hshort there hnode ih =>
    obtain ⟨n, hn⟩ := ih h
    exact ⟨n, .down hup hshort (fun t ht => by rw [hnode] at ht; cases ht) hn⟩
  | case9 links here name rest hup hshort there t hnode hlast => simp at hlast
  | case11 here name rest hup hshort there t hnode hlast links path ih =>
    obtain ⟨n, hn⟩ := ih h
    obtain ⟨mid, i, j, htarget, hrest, -⟩ := hn.of_append
    exact ⟨_, .link hup hshort hnode htarget hrest⟩
  | case3 | case5 | case7 | case10 => cases h

/-- Where one name is left, the look-up is in the directory above. -/
theorem follows_of_last {last : String} {xs : List String} (hlast : rest.isEmpty = true)
    (hrest : last :: rest = xs ++ [name]) :
    ∃ mid n, Follows s here xs mid n ∧ here ++ [last] = mid ++ [name] := by
  rw [List.isEmpty_iff.mp hlast, List.singleton_eq_append_iff] at hrest
  rcases hrest with ⟨rfl, hname⟩ | ⟨-, hnil⟩
  · exact ⟨here, 0, .done, by rw [hname]⟩
  · cases hnil

/-- A look-up that does not follow the last link leads through the directory above. -/
theorem follows_of_locateFrom_concat (hname : name ≠ "..")
    (h : locateFrom s false links here rest = .ok l) :
    ∀ {xs : List String}, rest = xs ++ [name] →
      ∃ mid n, Follows s here xs mid n ∧ l = mid ++ [name] := by
  fun_induction locateFrom s false links here rest with
  | case1 => simp
  | case2 links here rest ih =>
    intro xs hrest
    cases xs with
    | nil => exact absurd (List.cons.inj hrest).1.symm hname
    | cons x xs =>
      obtain ⟨rfl, rfl⟩ := List.cons.inj hrest
      obtain ⟨mid, n, hn, rfl⟩ := ih h rfl
      exact ⟨mid, n, .up hn, rfl⟩
  | case4 links here last rest hup hshort there hnode hlast =>
    intro xs hrest
    obtain rfl := Except.ok.inj h
    exact follows_of_last hlast hrest
  | case6 links here last rest hup hshort there b hnode hlast =>
    intro xs hrest
    obtain rfl := Except.ok.inj h
    exact follows_of_last hlast hrest
  | case8 links here first rest hup hshort there hnode ih =>
    intro xs hrest
    cases xs with
    | nil =>
      obtain ⟨rfl, rfl⟩ := List.cons.inj hrest
      rw [locateFrom] at h
      exact ⟨here, 0, .done, (Except.ok.inj h).symm⟩
    | cons x xs =>
      obtain ⟨rfl, rfl⟩ := List.cons.inj hrest
      obtain ⟨mid, n, hn, rfl⟩ := ih h rfl
      exact ⟨mid, n, .down hup hshort (fun t ht => by rw [hnode] at ht; cases ht) hn, rfl⟩
  | case9 links here last rest hup hshort there t hnode =>
    rename_i hlast
    intro xs hrest
    obtain rfl := Except.ok.inj h
    exact follows_of_last (by simpa using hlast) hrest
  | case11 here first rest hup hshort there t hnode hlast links path =>
    rename_i ih
    intro xs hrest
    cases xs with
    | nil =>
      obtain ⟨rfl, rfl⟩ := List.cons.inj hrest
      simp at hlast
    | cons x xs =>
      obtain ⟨rfl, rfl⟩ := List.cons.inj hrest
      obtain ⟨mid, n, hn, rfl⟩ := ih h (List.append_assoc ..).symm
      obtain ⟨mid', i, j, htarget, hxs, -⟩ := hn.of_append
      exact ⟨mid, _, .link hup hshort hnode htarget hxs, rfl⟩
  | case3 | case5 | case7 | case10 => cases h

/-- If the place is no link, following the last link does not matter. -/
theorem locateFrom_true_of_false (h : locateFrom s false links here rest = .ok l)
    (hl : ∀ t, s.node? l ≠ some (.link t)) : locateFrom s true links here rest = .ok l := by
  fun_induction locateFrom s false links here rest with
  | case1 => rwa [locateFrom]
  | case2 links here rest ih => rw [locateFrom, if_pos rfl, ih h]
  | case4 links here name rest hup hshort there hnode hlast =>
    obtain rfl := Except.ok.inj h
    rw [List.isEmpty_iff.mp hlast]
    exact locateFrom_last hup hshort hl
  | case6 links here name rest hup hshort there b hnode hlast =>
    obtain rfl := Except.ok.inj h
    rw [List.isEmpty_iff.mp hlast]
    exact locateFrom_last hup hshort hl
  | case8 links here name rest hup hshort there hnode ih =>
    rw [locateFrom_directory hup hshort hnode]
    exact ih h
  | case9 links here name rest hup hshort there t hnode hlast =>
    obtain rfl := Except.ok.inj h
    exact absurd hnode (hl t)
  | case11 here name rest hup hshort there t hnode hlast links path ih =>
    rw [locateFrom_link hup hshort hnode, if_neg (by simp)]
    exact ih h
  | case3 | case5 | case7 | case10 => cases h

/-- What a look-up comes to stays, unless something was missing. -/
theorem locateFrom_mono {r : Except FileCause Location} (hs : SameLinks s s')
    (h : locateFrom s followLast links here rest = r) (hfound : r ≠ .error .notFound)
    (hdir : r ≠ .error .notADirectory) : locateFrom s' followLast links here rest = r := by
  subst h
  fun_induction locateFrom s followLast links here rest with
  | case1 => rw [locateFrom]
  | case2 links here rest ih => rw [locateFrom, if_pos rfl, ih hfound hdir]
  | case3 links here name rest hup hlong => rw [locateFrom, if_neg hup, if_pos hlong]
  | case4 links here name rest hup hshort there hnode hrest =>
    rw [List.isEmpty_iff.mp hrest]
    refine locateFrom_last hup hshort fun t ht => ?_
    have hold := hs.links _ _ ht
    rw [hnode] at hold
    cases hold
  | case6 links here name rest hup hshort there b hnode hrest =>
    rw [List.isEmpty_iff.mp hrest]
    refine locateFrom_last hup hshort fun t ht => ?_
    have hold := hs.links _ _ ht
    rw [hnode] at hold
    cases hold
  | case8 links here name rest hup hshort there hnode ih =>
    rw [locateFrom_directory hup hshort (hs.directories _ hnode)]
    exact ih hfound hdir
  | case9 links here name rest hup hshort there t hnode hrest =>
    rw [locateFrom_link hup hshort (hs.kept _ _ hnode), if_pos hrest]
  | case10 here name rest hup hshort there t hnode hrest =>
    rw [locateFrom_link hup hshort (hs.kept _ _ hnode), if_neg hrest]
  | case11 here name rest hup hshort there t hnode hrest links path ih =>
    rw [locateFrom_link hup hshort (hs.kept _ _ hnode), if_neg hrest]
    exact ih hfound hdir
  | case5 => exact absurd rfl hfound
  | case7 => exact absurd rfl hdir

/-! ### Real locations -/

/-- The location is named as the system names it: no `..`, and no link on the way. -/
structure IsReal (s : FileStore) (l : Location) : Prop where
  proper : ".." ∉ l
  free : LinkFree s [] l

theorem isReal_nil (s : FileStore) : IsReal s [] := ⟨List.not_mem_nil, trivial⟩

theorem IsReal.mono (hs : SameLinks s s') (h : IsReal s l) : IsReal s' l :=
  ⟨h.proper, h.free.mono hs.links⟩

theorem IsReal.dropLast (h : IsReal s l) : IsReal s l.dropLast := by
  refine ⟨fun hmem => h.proper (List.dropLast_subset _ hmem), ?_⟩
  rcases l.eq_nil_or_concat' with rfl | ⟨above, last, rfl⟩
  · exact h.free
  · rw [List.dropLast_concat]
    exact (linkFree_append.mp h.free).1

theorem isReal_concat_iff :
    IsReal s (l ++ [name]) ↔ IsReal s l ∧ name ≠ ".." ∧ ∀ t, s.node? (l ++ [name]) ≠ some (.link t) := by
  have hmem : ".." ∉ l ++ [name] ↔ ".." ∉ l ∧ name ≠ ".." := by simp [eq_comm]
  constructor
  · rintro ⟨hproper, hfree⟩
    obtain ⟨hl, hup⟩ := hmem.mp hproper
    obtain ⟨habove, hlast⟩ := linkFree_append.mp hfree
    rw [walkFrom_of_proper hl, List.nil_append, LinkFree, if_neg hup] at hlast
    exact ⟨⟨hl, habove⟩, hup, hlast.1⟩
  · rintro ⟨⟨hl, habove⟩, hup, hnode⟩
    refine ⟨hmem.mpr ⟨hl, hup⟩, linkFree_append.mpr ⟨habove, ?_⟩⟩
    rw [walkFrom_of_proper hl, List.nil_append, LinkFree, if_neg hup]
    exact ⟨hnode, trivial⟩

/-- A location is real if no link stands at it or above it. -/
theorem isReal_of_links (hproper : ".." ∉ l)
    (h : ∀ above t, s.node? above = some (.link t) → ¬ above <+: l) : IsReal s l := by
  induction l using List.reverseRecOn with
  | nil => exact isReal_nil s
  | append_singleton above name ih =>
    rw [List.mem_append, List.mem_singleton, not_or] at hproper
    have habove : IsReal s above :=
      ih hproper.1 fun l t hl hle => h l t hl (hle.trans (List.prefix_append above [name]))
    exact isReal_concat_iff.mpr ⟨habove, Ne.symm hproper.2, fun t ht => h _ t ht (List.prefix_refl _)⟩

theorem IsReal.not_link (h : IsReal s l) (t : String) : s.node? l ≠ some (.link t) := by
  rcases l.eq_nil_or_concat' with rfl | ⟨above, last, rfl⟩
  · simp
  · exact (isReal_concat_iff.mp h).2.2 t

/-- Following leads from real locations to real locations. -/
theorem Follows.isReal (h : Follows s here rest l n) (hhere : IsReal s here) : IsReal s l := by
  induction h with
  | done => exact hhere
  | up _ ih => exact ih hhere.dropLast
  | down hup _ hnode _ ih => exact ih (isReal_concat_iff.mpr ⟨hhere, hup, hnode⟩)
  | link _ _ _ _ _ ihtarget ih =>
    refine ih (ihtarget ?_)
    rw [base]
    split
    · exact isReal_nil s
    · exact hhere

/-- Relative paths start from a real location. -/
def Homed (s : FileStore) : Prop := IsReal s s.current

theorem Homed.mono (hs : SameLinks s s') (h : Homed s) : Homed s' := by
  rw [Homed, hs.current]
  exact IsReal.mono hs h

theorem Homed.start (h : Homed s) (p : Path) : IsReal s (s.start p) := by
  rw [FileStore.start]
  split
  · exact isReal_nil s
  · exact h

/-! ### Real paths -/

section Walk

variable {opened : List Location} {depth : ℕ}

theorem walk_up : realFrom.walk s opened depth here (".." :: rest) =
    realFrom.walk s opened depth here.dropLast rest := by
  rw [realFrom.walk]

theorem walk_down (hup : name ≠ "..")
    (hnode : nameLimit < name.utf8ByteSize ∨ ∀ t, s.node? (here ++ [name]) ≠ some (.link t)) :
    realFrom.walk s opened depth here (name :: rest) =
      realFrom.walk s opened depth (here ++ [name]) rest := by
  rw [realFrom.walk]
  · dsimp only
    split
    · rfl
    · rename_i target htarget
      split at htarget
      · cases htarget
      · rename_i hshort
        split at htarget
        · rename_i t ht
          exact absurd ht (hnode.resolve_left hshort t)
        · cases htarget
  · exact hup

theorem walk_link (hup : name ≠ "..") (hshort : ¬ nameLimit < name.utf8ByteSize)
    (hnode : s.node? (here ++ [name]) = some (.link t)) :
    realFrom.walk s opened depth here (name :: rest) =
      if opened.contains (here ++ [name]) then (here ++ [name] ++ rest, false)
      else
        match realFrom s ((here ++ [name]) :: opened) (base here t) (Path.ofString t).parts depth with
        | (mid, true) => realFrom.walk s opened depth mid rest
        | (mid, false) => (mid ++ rest, false) := by
  rw [realFrom.walk]
  · simp only [hshort, hnode, if_false]
    rfl
  · exact hup

/-- Links whose targets are being walked. -/
structure Opened (s : FileStore) (opened : List Location) : Prop where
  nodup : opened.Nodup
  links : ∀ o ∈ opened, ∃ t, s.node? o = some (.link t)

theorem opened_nil (s : FileStore) : Opened s [] := ⟨List.nodup_nil, fun _ h => by cases h⟩

theorem Opened.cons (h : Opened s opened) (hl : opened.contains l = false)
    (hnode : s.node? l = some (.link t)) : Opened s (l :: opened) := by
  refine ⟨List.nodup_cons.mpr ⟨fun hmem => ?_, h.nodup⟩, fun o ho => ?_⟩
  · rw [List.contains_iff_mem.mpr hmem] at hl
    cases hl
  · rcases List.mem_cons.mp ho with rfl | ho
    · exact ⟨t, hnode⟩
    · exact h.links o ho

/-- There are no more of them than nodes. -/
theorem Opened.length_le (h : Opened s opened) : opened.length ≤ s.nodes.length := by
  have hkeys : (s.nodes.map Prod.fst).length = s.nodes.length := List.length_map _
  rw [← hkeys]
  refine (h.nodup.subperm fun o ho => ?_).length_le
  obtain ⟨t, ht⟩ := h.links o ho
  have hne : o ≠ [] := by
    rintro rfl
    simp at ht
  rw [node?_of_ne_nil hne] at ht
  obtain ⟨e, he, -⟩ := Option.map_eq_some_iff.mp ht
  have heq : e.1 = o := by simpa using List.find?_some he
  exact heq ▸ List.mem_map_of_mem (List.mem_of_find?_eq_some he)

/-- The walks behind the targets of these links are at least so long. -/
def Outlast (s : FileStore) (opened : List Location) (n : ℕ) : Prop :=
  ∀ above name t mid m, above ++ [name] ∈ opened → s.node? (above ++ [name]) = some (.link t) →
    Follows s (base above t) (Path.ofString t).parts mid m → n ≤ m

/-- A walk that follows finitely many links comes to its end. It meets no link that is open: the
walk behind such a link would be a part of itself. -/
theorem walk_of_follows (h : Follows s here rest l n) :
    ∀ {opened : List Location} {depth : ℕ}, Opened s opened → Outlast s opened n →
      s.nodes.length ≤ opened.length + depth →
        realFrom.walk s opened depth here rest = (l, true) := by
  induction h with
  | done =>
    intro opened depth _ _ _
    rw [realFrom.walk]
  | up _ ih =>
    intro opened depth hopened hlast hdepth
    rw [walk_up]
    exact ih hopened hlast hdepth
  | down hup _ hnode _ ih =>
    intro opened depth hopened hlast hdepth
    rw [walk_down hup (.inr hnode)]
    exact ih hopened hlast hdepth
  | @link here mid l name t rest m n hup hshort hnode htarget _ ihtarget ih =>
    intro opened depth hopened hlast hdepth
    have hclosed : opened.contains (here ++ [name]) = false := by
      rw [← Bool.not_eq_true, List.contains_iff_mem]
      intro hmem
      have hle := hlast here name t mid m hmem hnode htarget
      omega
    have hopened' := hopened.cons hclosed hnode
    have hlength := hopened'.length_le
    rw [List.length_cons] at hlength
    obtain ⟨depth, rfl⟩ : ∃ d, depth = d + 1 := ⟨depth - 1, by omega⟩
    have hlast' : Outlast s ((here ++ [name]) :: opened) m := by
      intro above name' t' mid' m' hmem hnode' htarget'
      rcases List.mem_cons.mp hmem with heq | hmem
      · obtain ⟨rfl, hname⟩ := List.append_inj' heq rfl
        cases hname
        rw [hnode] at hnode'
        cases hnode'
        exact Nat.le_of_eq (htarget.unique htarget').2
      · have hle := hlast above name' t' mid' m' hmem hnode' htarget'
        omega
    have hmid : realFrom s ((here ++ [name]) :: opened) (base here t) (Path.ofString t).parts
        (depth + 1) = (mid, true) := by
      rw [realFrom]
      refine ihtarget hopened' hlast' ?_
      rw [List.length_cons]
      omega
    rw [walk_link hup hshort hnode, hclosed, hmid]
    refine ih hopened (fun above name' t' mid' m' hmem hnode' htarget' => ?_) hdepth
    have hle := hlast above name' t' mid' m' hmem hnode' htarget'
    omega

/-- Where the links are the same, and deep enough, replacing them comes to the same. -/
theorem realFrom_eq (hs : SameLinks s s') (depth' : ℕ) (hopened : Opened s opened)
    (hdepth : s.nodes.length < opened.length + depth)
    (hdepth' : s'.nodes.length < opened.length + depth') :
    realFrom s opened here rest depth = realFrom s' opened here rest depth' := by
  induction depth generalizing opened here rest depth' with
  | zero =>
    have := hopened.length_le
    omega
  | succ depth ih =>
    have hopened' : Opened s' opened :=
      ⟨hopened.nodup, fun o ho => (hopened.links o ho).imp fun t ht => hs.kept o t ht⟩
    have hlength := hopened'.length_le
    obtain ⟨depth', rfl⟩ : ∃ d, depth' = d + 1 := ⟨depth' - 1, by omega⟩
    rw [realFrom, realFrom]
    induction rest generalizing here with
    | nil => rw [realFrom.walk, realFrom.walk]
    | cons name rest ihrest =>
      by_cases hup : name = ".."
      · rw [hup, walk_up, walk_up]
        exact ihrest
      · by_cases hshort : nameLimit < name.utf8ByteSize
        · rw [walk_down hup (.inl hshort), walk_down hup (.inl hshort)]
          exact ihrest
        · by_cases hlink : ∃ t, s.node? (here ++ [name]) = some (.link t)
          · obtain ⟨t, ht⟩ := hlink
            rw [walk_link hup hshort ht, walk_link hup hshort (hs.kept _ _ ht)]
            split
            · rfl
            · rename_i hclosed
              rw [Bool.not_eq_true] at hclosed
              rw [ih depth' (hopened.cons hclosed ht) (by rw [List.length_cons]; omega)
                (by rw [List.length_cons]; omega)]
              split
              · exact ihrest
              · rfl
          · push Not at hlink
            rw [walk_down hup (.inr hlink),
              walk_down hup (.inr fun t ht => hlink t (hs.links _ _ ht))]
            exact ihrest

end Walk

theorem start_eq (h : s'.current = s.current) (p : Path) : s'.start p = s.start p := by
  rw [start, start, h]

/-- The path with its links replaced, as far as they can be. -/
def resolved (s : FileStore) (p : Path) : Path :=
  ⟨.root, collapseDots (realFrom s [] (s.start p) p.parts (s.nodes.length + 1)).1⟩

theorem realPath_eq_locate (p : Path) : s.realPath p = match s.locate (resolved s p) true with
    | .error e => if e.cause = .tooManyLinks then .error e else .ok (resolved s p)
    | .ok _ => .ok (resolved s p) :=
  rfl

theorem realPath_eq_ok_iff {q : Path} : s.realPath p = .ok q ↔
    q = resolved s p ∧ locateFrom s true linkLimit [] q.parts ≠ .error .tooManyLinks := by
  have hlocate : s.locate (resolved s p) true =
      (locateFrom s true linkLimit [] (resolved s p).parts).mapError
        fun c => ⟨c, (resolved s p).toString⟩ := rfl
  rw [realPath_eq_locate, hlocate]
  cases hcase : locateFrom s true linkLimit [] (resolved s p).parts with
  | ok l =>
    refine ⟨fun h => ?_, fun h => by rw [h.1]; rfl⟩
    obtain rfl : resolved s p = q := Except.ok.inj h
    exact ⟨rfl, by rw [hcase]; simp⟩
  | error c =>
    by_cases hc : c = .tooManyLinks
    · subst hc
      refine iff_of_false (fun h => by cases h) ?_
      rintro ⟨rfl, h⟩
      exact h hcase
    · simp only [Except.mapError_error, hc, if_false]
      refine ⟨fun h => ?_, fun h => by rw [h.1]⟩
      obtain rfl : resolved s p = q := Except.ok.inj h
      exact ⟨rfl, by rw [hcase]; simpa using hc⟩

/-- The real path of a path through finitely many links. -/
theorem realPath_of_follows (hhome : Homed s) (h : Follows s (s.start p) p.parts l n) :
    s.realPath p = .ok ⟨.root, l⟩ := by
  have hreal := h.isReal (hhome.start p)
  have hwalk : realFrom s [] (s.start p) p.parts (s.nodes.length + 1) = (l, true) := by
    rw [realFrom]
    exact walk_of_follows h (opened_nil s) (fun above name t mid m hmem => by cases hmem)
      (by simp)
  refine realPath_eq_ok_iff.mpr ⟨?_, ?_⟩
  · rw [resolved, hwalk, collapseDots_of_proper hreal.proper]
  · rw [locateFrom_eq_reach hreal.free]
    exact reach_ne_tooManyLinks

/-- A real location is its own real path. -/
theorem IsReal.realPath (h : IsReal s l) : s.realPath ⟨.root, l⟩ = .ok ⟨.root, l⟩ := by
  have hstart : s.start ⟨.root, l⟩ = [] := rfl
  have hwalk : realFrom s [] [] l (s.nodes.length + 1) = (l, true) := by
    rw [realFrom, realFrom_walk h.free, walkFrom_of_proper h.proper, List.nil_append]
  refine realPath_eq_ok_iff.mpr ⟨?_, ?_⟩
  · rw [resolved, hstart, hwalk, collapseDots_of_proper h.proper]
  · rw [locateFrom_eq_reach h.free]
    exact reach_ne_tooManyLinks

theorem locate_eq_ok_iff_from : s.locate p followLast = .ok l ↔
    locateFrom s followLast linkLimit (s.start p) p.parts = .ok l := by
  rw [locate]
  cases locateFrom s followLast linkLimit (s.start p) p.parts <;> simp

/-- **A path that leads somewhere leads to its real path.** -/
theorem realPath_of_locate (hhome : Homed s) (h : s.locate p true = .ok l) :
    s.realPath p = .ok ⟨.root, l⟩ ∧ IsReal s l := by
  obtain ⟨n, hn⟩ := follows_of_locateFrom (locate_eq_ok_iff_from.mp h)
  exact ⟨realPath_of_follows hhome hn, hn.isReal (hhome.start p)⟩

theorem SameLinks.resolved (hs : SameLinks s s') (p : Path) : resolved s p = resolved s' p := by
  rw [FileStore.resolved, FileStore.resolved, start_eq hs.current, realFrom_eq hs
    (s'.nodes.length + 1) (opened_nil s) (by simp) (by simp)]

/-- **A real path has always been the same**, as long as the links have. -/
theorem SameLinks.realPath {q : Path} (hs : SameLinks s s') (h : s'.realPath p = .ok q) :
    s.realPath p = .ok q := by
  rw [realPath_eq_ok_iff] at h ⊢
  exact ⟨(hs.resolved p).symm ▸ h.1, fun hloop => h.2 (locateFrom_mono hs hloop (by simp) (by simp))⟩

/-- A path that leads somewhere goes on to do so. -/
theorem locate_mono (hs : SameLinks s s') (h : s.locate p followLast = .ok l) :
    s'.locate p followLast = .ok l := by
  rw [locate_eq_ok_iff_from] at h ⊢
  rw [start_eq hs.current, locateFrom_mono hs h (by simp) (by simp)]

end FileStore

end ModulePins
