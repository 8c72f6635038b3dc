import ModulePins.Proofs.Discovery.Stored
import ModulePins.Proofs.FileStore.Resolved
import ModulePins.Proofs.Path

/-!
# Directories on the way

A look-up that gets to a place has come through the directory that the place lies in, and a look-up
that got to a directory goes on from there. So what a path leads to can be read off the directory
above it and one name, whatever links were on the way. That is what makes it possible to say of a
place where nothing was that nothing is there later either.

`Grows names s s'` bounds what is made: the directories that are new in `s'` have one of these
names. Making the directories of a path behind one that is there makes no others.

## Main definitions

* `FileStore.Solid` — all directories that lead to a location are there
* `FileStore.WellFormed` — a store as a file system has it
* `FileStore.Grows` — new directories have these names, and no location gets a second node

## Main results

* `FileStore.directory_above`, `FileStore.locate_below` — a place and the directory that it lies in
* `FileStore.makeDirs_of_isDir` — a directory that is there is not made
* `FileStore.grows_makeDirs` — the names of the directories that are made
-/

namespace ModulePins

namespace FileStore

variable {s s' s'' : FileStore} {p q d : Path} {here l l' mid : Location} {rest xs : List String}
  {name : String} {names more : List String} {followLast : Bool} {n : FileNode} {b : ByteArray}
  {links : ℕ}

/-! ### Well-formed stores -/

/-- All directories that lead to a location are there, and so is itself. -/
def Solid (s : FileStore) (l : Location) : Prop :=
  ∀ above, above <+: l → s.node? above = some .directory

theorem solid_nil (s : FileStore) : Solid s [] := fun above h => by
  rw [List.prefix_nil.mp h, node?_nil]

theorem Solid.directory (h : Solid s l) : s.node? l = some .directory := h l List.prefix_rfl

theorem Solid.above (h : Solid s l) (hbelow : l' <+: l) : Solid s l' :=
  fun above habove => h above (habove.trans hbelow)

theorem Solid.concat (h : Solid s l) (hdir : s.node? (l ++ [name]) = some .directory) :
    Solid s (l ++ [name]) := fun above habove => by
  rcases List.prefix_concat_iff.mp habove with rfl | habove
  · exact hdir
  · exact h above habove

theorem Solid.mono (hk : Keeps s s') (h : Solid s l) : Solid s' l :=
  fun above habove => hk.directories above (h above habove)

theorem Solid.isReal (h : Solid s l) (hproper : ".." ∉ l) : IsReal s l :=
  isReal_of_links hproper fun above t ht hbelow => by
    rw [h above hbelow] at ht
    cases ht

/-- A store as a file system has it. -/
structure WellFormed (s : FileStore) : Prop where
  distinct : s.Distinct
  /-- Everything lies in a directory. -/
  grounded : ∀ l name n, s.node? (l ++ [name]) = some n → s.node? l = some .directory
  named : ∀ l n, s.node? l = some n → ∀ name ∈ l, Path.IsName name
  short : ∀ l n, s.node? l = some n → ∀ name ∈ l, ¬ nameLimit < name.utf8ByteSize
  /-- Relative paths start from a directory. -/
  home : s.node? s.current = some .directory

/-- It is enough to look at the nodes one by one. -/
theorem wellFormed_of_nodes (hdistinct : s.Distinct)
    (hnodes : ∀ e ∈ s.nodes, s.node? e.1.dropLast = some .directory ∧
      ∀ name ∈ e.1, Path.IsName name ∧ ¬ nameLimit < name.utf8ByteSize)
    (hhome : s.node? s.current = some .directory) : WellFormed s where
  distinct := hdistinct
  grounded l name n h := by
    have hdir := (hnodes _ (mem_nodes_of_node? (by simp) h)).1
    rwa [List.dropLast_concat] at hdir
  named l n h name hname := ((hnodes _ (mem_nodes_of_node? (List.ne_nil_of_mem hname) h)).2 name hname).1
  short l n h name hname := ((hnodes _ (mem_nodes_of_node? (List.ne_nil_of_mem hname) h)).2 name hname).2
  home := hhome

/-- Nothing lies below what is not there. -/
theorem WellFormed.node?_below_eq_none (hs : s.WellFormed) (h : s.node? l = none) (name : String) :
    s.node? (l ++ [name]) = none := by
  by_contra hsome
  obtain ⟨n, hn⟩ := Option.ne_none_iff_exists'.mp hsome
  have hdir := hs.grounded l name n hn
  rw [h] at hdir
  cases hdir

/-- What a location holds is reached through directories. -/
theorem WellFormed.solid (hs : s.WellFormed) (h : s.node? l = some .directory) : Solid s l := by
  induction l using List.reverseRecOn with
  | nil => exact solid_nil s
  | append_singleton l name ih => exact (ih (hs.grounded l name _ h)).concat h

theorem WellFormed.proper (hs : s.WellFormed) (h : s.node? l = some n) : ".." ∉ l :=
  fun hup => (hs.named l n h _ hup).ne_up rfl

theorem WellFormed.homed (hs : s.WellFormed) : Homed s :=
  (hs.solid hs.home).isReal (hs.proper hs.home)

theorem Solid.start (h : Solid s s.current) (p : Path) : Solid s (s.start p) := by
  rw [FileStore.start]
  split
  · exact solid_nil s
  · exact h

/-- In a store without links, a real path has the last name of the path. -/
theorem realPath_div {d : Path} (hfree : ∀ l t, s.node? l ≠ some (.link t))
    (hproper : ".." ∉ s.current) (hname : Path.IsName name) :
    ∃ above, s.realPath (d / name) = .ok ⟨.root, above ++ [name]⟩ := by
  have hwalk (here : Location) (rest : List String) :
      walkFrom here (rest ++ [name]) = walkFrom here rest ++ [name] := by
    induction rest generalizing here with
    | nil => simp [walkFrom, hname.ne_up]
    | cons first rest ih => exact ih _
  refine ⟨walkFrom (s.start (d / name)) d.parts, ?_⟩
  rw [realPath_eq (direct_of_no_link hfree _) hproper, spot, Path.parts_div d hname, hwalk]

/-! ### The directory above -/

/-- A look-up that gets to its last component has come to a directory. -/
theorem above_of_locateFrom (hname : name ≠ "..")
    (h : locateFrom s followLast links here rest = .ok l) :
    ∀ {xs : List String}, rest = xs ++ [name] → Solid s here →
      ∃ mid, locateFrom s true links here xs = .ok mid ∧ Solid s mid := by
  have hlast {links : ℕ} {here : Location} {last : String} {rest xs : List String}
      (hnil : rest = []) (hrest : last :: rest = xs ++ [name]) (hhere : Solid s here) :
      ∃ mid, locateFrom s true links here xs = .ok mid ∧ Solid s mid := by
    rw [hnil] at hrest
    obtain ⟨rfl, -⟩ := List.append_inj' (show [] ++ [last] = _ from hrest) rfl
    exact ⟨here, by rw [locateFrom], hhere⟩
  fun_induction locateFrom s followLast links here rest with
  | case1 => simp
  | case2 links here rest ih =>
    intro xs hrest hhere
    cases xs with
    | nil => exact absurd (List.cons.inj hrest).1.symm hname
    | cons x xs =>
      obtain ⟨rfl, rfl⟩ := List.cons.inj hrest
      obtain ⟨mid, hmid, hsolid⟩ := ih h rfl (hhere.above (List.dropLast_prefix here))
      exact ⟨mid, by rw [locateFrom, if_pos rfl, hmid], hsolid⟩
  | case4 links here last rest hup hshort there hnode hnil =>
    exact fun {_} => hlast (List.isEmpty_iff.mp hnil)
  | case6 links here last rest hup hshort there b hnode hnil =>
    exact fun {_} => hlast (List.isEmpty_iff.mp hnil)
  | case8 links here first rest hup hshort there hnode ih =>
    intro xs hrest hhere
    cases xs with
    | nil => exact ⟨here, by rw [locateFrom], hhere⟩
    | cons x xs =>
      obtain ⟨rfl, rfl⟩ := List.cons.inj hrest
      obtain ⟨mid, hmid, hsolid⟩ := ih h rfl (hhere.concat hnode)
      exact ⟨mid, (locateFrom_directory hup hshort hnode).trans hmid, hsolid⟩
  | case9 links here last rest hup hshort there t hnode =>
    rename_i hnil
    rw [Bool.and_eq_true] at hnil
    exact fun {_} => hlast (List.isEmpty_iff.mp hnil.1)
  | case11 here first rest hup hshort there t hnode hrest links path =>
    rename_i ih
    intro xs hconcat hhere
    cases xs with
    | nil => exact ⟨here, by rw [locateFrom], hhere⟩
    | cons x xs =>
      obtain ⟨rfl, rfl⟩ := List.cons.inj hconcat
      have hbase : Solid s (base here t) := by
        rw [base]
        split
        · exact solid_nil s
        · exact hhere
      obtain ⟨mid, hmid, hsolid⟩ := ih h (List.append_assoc ..).symm hbase
      refine ⟨mid, ?_, hsolid⟩
      rw [locateFrom_link hup hshort hnode, if_neg (by simp)]
      exact hmid
  | case3 | case5 | case7 | case10 => cases h

/-- A look-up that has come to a directory goes on from there, with the links that are left. -/
theorem locateFrom_append (h : locateFrom s true links here xs = .ok mid)
    (hdir : s.node? mid = some .directory) :
    ∃ left, ∀ (followLast : Bool) (ys : List String), ys ≠ [] →
      locateFrom s followLast links here (xs ++ ys) = locateFrom s followLast left mid ys := by
  fun_induction locateFrom s true links here xs with
  | case1 links here =>
    obtain rfl := Except.ok.inj h
    exact ⟨links, fun _ _ _ => rfl⟩
  | case2 links here rest ih =>
    obtain ⟨left, hleft⟩ := ih h
    refine ⟨left, fun followLast ys hys => ?_⟩
    rw [List.cons_append, locateFrom, if_pos rfl, hleft followLast ys hys]
  | case4 links here name rest hup hshort there hnode hnil =>
    obtain rfl := Except.ok.inj h
    rw [hnode] at hdir
    cases hdir
  | case6 links here name rest hup hshort there b hnode hnil =>
    obtain rfl := Except.ok.inj h
    rw [hnode] at hdir
    cases hdir
  | case8 links here name rest hup hshort there hnode ih =>
    obtain ⟨left, hleft⟩ := ih h
    refine ⟨left, fun followLast ys hys => ?_⟩
    rw [List.cons_append, locateFrom_directory hup hshort hnode, hleft followLast ys hys]
  | case9 links here name rest hup hshort there t hnode hnil => simp at hnil
  | case11 here name rest hup hshort there t hnode hnil links path ih =>
    obtain ⟨left, hleft⟩ := ih h
    refine ⟨left, fun followLast ys hys => ?_⟩
    rw [List.cons_append, locateFrom_link hup hshort hnode, if_neg (by simp [hys]),
      ← List.append_assoc]
    exact hleft followLast ys hys
  | case3 | case5 | case7 | case10 => cases h

theorem parts_of_name (hname : p.parts ≠ []) : p.parts = p.parent.parts ++ [p.name] := by
  rw [Path.parent, Path.name, List.getLast?_eq_some_getLast hname, Option.getD_some,
    List.dropLast_concat_getLast]

/-- **A path that leads somewhere** leads into a directory. -/
theorem directory_above (hhome : Solid s s.current) (hparts : p.parts ≠ []) (hname : p.name ≠ "..")
    (h : s.locate p followLast = .ok l) :
    ∃ above, s.locate p.parent true = .ok above ∧ Solid s above := by
  obtain ⟨above, habove, hsolid⟩ := above_of_locateFrom hname (locate_eq_ok_iff_from.mp h)
    (parts_of_name hparts) (hhome.start p)
  exact ⟨above, locate_eq_ok_iff_from.mpr habove, hsolid⟩

/-- **A path into a directory** leads to the location below it, unless there is a link. -/
theorem locate_below (hparts : p.parts ≠ []) (hname : p.name ≠ "..")
    (hshort : ¬ nameLimit < p.name.utf8ByteSize) (h : s.locate p.parent true = .ok l)
    (hdir : s.node? l = some .directory) (hlink : ∀ t, s.node? (l ++ [p.name]) ≠ some (.link t)) :
    s.locate p followLast = .ok (l ++ [p.name]) := by
  obtain ⟨left, hleft⟩ := locateFrom_append (locate_eq_ok_iff_from.mp h) hdir
  rw [locate_eq_ok_iff_from, parts_of_name hparts]
  exact (hleft followLast [p.name] (by simp)).trans (locateFrom_last hname hshort hlink)

/-- What lies in directories is found without any link. -/
theorem WellFormed.locate (hs : s.WellFormed) (h : s.node? l = some .directory) :
    s.locate ⟨.root, l⟩ followLast = .ok l := by
  induction l using List.reverseRecOn generalizing followLast with
  | nil =>
    rw [locate_eq_ok_iff_from, locateFrom]
    rfl
  | append_singleton l name ih =>
    have hmem : name ∈ l ++ [name] := List.mem_append_right l List.mem_cons_self
    have hname : (⟨.root, l ++ [name]⟩ : Path).name = name := by simp [Path.name]
    have habove := hs.grounded l name _ h
    refine (locate_below (p := ⟨.root, l ++ [name]⟩) (by simp) ?_ ?_ ?_ habove ?_).trans (by rw [hname])
    · exact hname.symm ▸ (hs.named _ _ h name hmem).ne_up
    · exact hname.symm ▸ hs.short _ _ h name hmem
    · simpa [Path.parent] using ih habove
    · simp [hname, h]

/-! ### What a path leads to -/

theorem exists?_congr (h : s'.kind? p = s.kind? p) : s'.exists? p = s.exists? p := by
  rw [exists?, exists?, h]

theorem isFile?_congr (h : s'.kind? p = s.kind? p) : s'.isFile? p = s.isFile? p := by
  rw [isFile?, isFile?, h]

theorem isDir?_congr (h : s'.kind? p = s.kind? p) : s'.isDir? p = s.isDir? p := by
  rw [isDir?, isDir?, h]

theorem exists?_eq_true_iff_kind? : s.exists? p = .ok true ↔ ∃ n, s.kind? p = .ok (some n) := by
  rw [exists?]
  cases s.kind? p with
  | error e => simp [bind, Except.bind]
  | ok n? => cases n? <;> simp [bind, Except.bind, pure, Except.pure]

theorem kind?_eq_some_iff :
    s.kind? p = .ok (some n) ↔ ∃ l, s.locate p true = .ok l ∧ s.node? l = some n := by
  rw [kind?]
  cases s.locate p true with
  | ok l => simp
  | error e => by_cases hlong : e.cause = .nameTooLong <;> simp [hlong]

theorem readBytes_congr (hn : s.kind? p = .ok (some n)) (h : s'.kind? p = s.kind? p) :
    s'.readBytes p = s.readBytes p := by
  obtain ⟨l, hl, hnode⟩ := kind?_eq_some_iff.mp hn
  obtain ⟨l', hl', hnode'⟩ := kind?_eq_some_iff.mp (h.trans hn)
  rw [readBytes, readBytes, hl, hl']
  simp only [bind, Except.bind, hnode, hnode']

/-! ### Directories -/

theorem isDir?_eq_true_iff_locate :
    s.isDir? p = .ok true ↔ ∃ l, s.locate p true = .ok l ∧ s.node? l = some .directory := by
  rw [isDir?, kind?]
  cases hlocate : s.locate p true with
  | error e => by_cases hlong : e.cause = .nameTooLong <;>
      simp [hlong, bind, Except.bind, pure, Except.pure]
  | ok l =>
    cases hnode : s.node? l with
    | none => simp [hnode, bind, Except.bind, pure, Except.pure]
    | some n => cases n <;> simp [hnode, bind, Except.bind, pure, Except.pure]

theorem isDir?_mono (hs : SameLinks s s') (h : s.isDir? p = .ok true) : s'.isDir? p = .ok true := by
  obtain ⟨l, hl, hdir⟩ := isDir?_eq_true_iff_locate.mp h
  exact isDir?_eq_true_iff_locate.mpr ⟨l, locate_mono hs hl, hs.directories l hdir⟩

/-- The real path of a directory stays the same. -/
theorem realPath_mono (hs : SameLinks s s') (h : s.realPath p = .ok q)
    (hdir : s.isDir? q = .ok true) : s'.realPath p = .ok q := by
  have hq := (realPath_eq_ok_iff.mp h).1
  obtain ⟨l, hl, -⟩ := isDir?_eq_true_iff_locate.mp (isDir?_mono hs hdir)
  refine realPath_eq_ok_iff.mpr ⟨hq.trans (hs.resolved p), fun hloop => ?_⟩
  have hstart : s'.start q = [] := by rw [hq]; rfl
  rw [locate_eq_ok_iff_from, hstart, hloop] at hl
  cases hl

/-- A look-up that gets somewhere also does if it leaves the last link alone. -/
theorem locateFrom_false_of_true (h : locateFrom s true links here rest = .ok l) :
    ∃ l', locateFrom s false links here rest = .ok l' ∧
      (l' = l ∨ ∃ t, s.node? l' = some (.link t)) := by
  fun_induction locateFrom s true links here rest with
  | case1 links here =>
    obtain rfl := Except.ok.inj h
    exact ⟨_, by rw [locateFrom], .inl rfl⟩
  | case2 links here rest ih =>
    obtain ⟨l', hl', hcase⟩ := ih h
    exact ⟨l', by rw [locateFrom, if_pos rfl, hl'], hcase⟩
  | case4 links here name rest hup hshort there hnode hnil =>
    obtain rfl := Except.ok.inj h
    rw [List.isEmpty_iff.mp hnil]
    exact ⟨_, locateFrom_last hup hshort (by simp [there, hnode]), .inl rfl⟩
  | case6 links here name rest hup hshort there b hnode hnil =>
    obtain rfl := Except.ok.inj h
    rw [List.isEmpty_iff.mp hnil]
    exact ⟨_, locateFrom_last hup hshort (by simp [there, hnode]), .inl rfl⟩
  | case8 links here name rest hup hshort there hnode ih =>
    rw [locateFrom_directory hup hshort hnode]
    exact ih h
  | case9 links here name rest hup hshort there t hnode hnil => simp at hnil
  | case11 here name rest hup hshort there t hnode hnil links path ih =>
    rw [locateFrom_link hup hshort hnode]
    split
    · exact ⟨_, rfl, .inr ⟨t, hnode⟩⟩
    · exact ih h
  | case3 | case5 | case7 | case10 => cases h

/-- No directory is made where there is one. -/
theorem makeDir_of_isDir (h : s.isDir? p = .ok true) :
    s.makeDir p = .error ⟨.alreadyExists, p.toString⟩ := by
  obtain ⟨l, hl, hdir⟩ := isDir?_eq_true_iff_locate.mp h
  obtain ⟨l', hl', hcase⟩ := locateFrom_false_of_true (locate_eq_ok_iff_from.mp hl)
  have hthere : ∃ n, s.node? l' = some n := by
    rcases hcase with rfl | ⟨t, ht⟩
    · exact ⟨_, hdir⟩
    · exact ⟨_, ht⟩
  obtain ⟨n, hn⟩ := hthere
  rw [makeDir, locate_eq_ok_iff_from.mpr hl']
  simp only [bind, Except.bind, hn]
  rfl

/-- **A directory that is there is not made.** -/
theorem makeDirs_of_isDir (h : s.isDir? p = .ok true) : s.makeDirs p = (.ok (), s) := by
  rw [makeDirs, makeDirsFrom, makeDir_of_isDir h]
  simp [makeDirsFrom.settle, h]

/-! ### Growing -/

theorem Distinct.put (h : s.Distinct) (l : Location) (n : FileNode) : (s.put l n).Distinct := by
  rw [Distinct, FileStore.put]
  split
  · have hkeys : (s.nodes.map fun e => if e.1 = l then (l, n) else e).map Prod.fst =
        s.nodes.map Prod.fst := by
      rw [List.map_map]
      refine List.map_congr_left fun e _ => ?_
      by_cases he : e.1 = l <;> simp [he]
    exact hkeys ▸ h
  · rename_i hany
    rw [List.map_append, List.nodup_append]
    refine ⟨h, by simp, fun k hk k' hk' heq => hany ?_⟩
    obtain ⟨e, he, rfl⟩ := List.mem_map.mp hk
    have hkey : e.1 = l := by simpa [heq] using hk'
    exact List.any_eq_true.mpr ⟨e, he, by simpa using hkey⟩

theorem Distinct.drop (h : s.Distinct) (l : Location) : (s.drop l).Distinct :=
  h.sublist (List.filter_sublist.map Prod.fst)

/-- Putting what is there already changes nothing. -/
theorem put_same (hs : s.Distinct) (hl : l ≠ []) (h : s.node? l = some n) : s.put l n = s := by
  have hmem := mem_nodes_of_node? hl h
  have hany : (s.nodes.any fun e => e.1 = l) = true :=
    List.any_eq_true.mpr ⟨(l, n), hmem, by simp⟩
  have hsame : (s.nodes.map fun e => if e.1 = l then (l, n) else e) = s.nodes := by
    refine (List.map_congr_left fun e he => ?_).trans (List.map_id _)
    split
    · rename_i hkey
      exact (List.inj_on_of_nodup_map hs he hmem hkey).symm
    · rfl
  rw [put, if_pos hany, hsame]

/-- The directories that are new have one of these names, and no location gets a second node. -/
structure Grows (names : List String) (s s' : FileStore) : Prop where
  distinct : s.Distinct → s'.Distinct
  directories : ∀ l, s'.node? l = some .directory →
    s.node? l = some .directory ∨ ∃ above, ∃ name ∈ names, l = above ++ [name]

theorem Grows.refl (names : List String) (s : FileStore) : Grows names s s :=
  ⟨id, fun _ h => .inl h⟩

theorem Grows.trans (h : Grows names s s') (h' : Grows names s' s'') : Grows names s s'' :=
  ⟨fun hs => h'.distinct (h.distinct hs),
    fun l hl => (h'.directories l hl).elim (h.directories l) .inr⟩

theorem Grows.mono (hsub : names ⊆ more) (h : Grows names s s') : Grows more s s' :=
  ⟨h.distinct, fun l hl => (h.directories l hl).imp_right
    fun ⟨above, name, hname, heq⟩ => ⟨above, name, hsub hname, heq⟩⟩

theorem grows_put (s : FileStore) (l : Location) (b : ByteArray) :
    Grows names s (s.put l (.file b)) := by
  refine ⟨fun h => h.put l _, fun l' hl' => .inl ?_⟩
  rcases eq_or_ne l' [] with rfl | hne
  · exact node?_nil s
  · rw [node?_put s l _ hne] at hl'
    split at hl'
    · cases hl'
    · exact hl'

theorem grows_drop (s : FileStore) (l : Location) : Grows names s (s.drop l) :=
  ⟨fun h => h.drop l, fun _ hl' => .inl (node?_of_drop hl')⟩

theorem grows_put_directory (hname : name ∈ names) (l : Location) :
    Grows names s (s.put (l ++ [name]) .directory) := by
  refine ⟨fun h => h.put _ _, fun l' hl' => ?_⟩
  rcases eq_or_ne l' [] with rfl | hne
  · exact .inl (node?_nil s)
  · rw [node?_put s _ _ hne] at hl'
    split at hl'
    · exact .inr ⟨l, name, hname, ‹_›⟩
    · exact .inl hl'

theorem grows_writeBytes (h : s.writeBytes p b = .ok s') : Grows names s s' := by
  rw [writeBytes] at h
  obtain ⟨l, -, h⟩ := Except.bind_eq_ok_iff.mp h
  split at h
  · cases h
  · obtain rfl := Except.ok.inj h
    exact grows_put s l b

theorem grows_replace (hfile : s.readBytes p = .ok b) (hhome : Homed s) (hp : ¬ EndsInLink s p)
    (hup : p.name ≠ "..") (h : s.replace p q = .ok s') : Grows names s s' := by
  obtain ⟨l, l', n, hl, hn, -, -, -, rfl⟩ := replace_eq_ok_locate h
  obtain ⟨m, hm, hb⟩ := readBytes_eq_ok_iff_locate.mp hfile
  rw [locate_true_of_false hhome hp hup hl] at hm
  cases hm
  rw [hn] at hb
  cases hb
  split
  · exact Grows.refl _ _
  · exact (grows_drop s l).trans (grows_put _ l' b)

/-- One directory. -/
theorem grows_makeDir (hname : p.name ∈ names) (hparts : p.parts ≠ []) (hup : p.name ≠ "..")
    (h : s.makeDir p = .ok s') : Grows names s s' := by
  rw [makeDir] at h
  obtain ⟨l, hl, h⟩ := Except.bind_eq_ok_iff.mp h
  split at h
  · cases h
  · obtain rfl := Except.ok.inj h
    obtain ⟨above, _, -, rfl⟩ := follows_of_locateFrom_concat hup (locate_eq_ok_iff_from.mp hl)
      (parts_of_name hparts)
    exact grows_put_directory hname above

theorem grows_makeDirsFrom (hdir : s.isDir? d = .ok true) (depth : ℕ) :
    ∀ {names : List String}, (∀ name ∈ names, name ≠ "..") →
      Grows names s (makeDirsFrom s ⟨d.anchor, d.parts ++ names⟩ depth).2 := by
  induction depth with
  | zero => exact fun _ => Grows.refl _ s
  | succ depth ih =>
    intro names hnames
    rcases names.eq_nil_or_concat' with rfl | ⟨above, name, rfl⟩
    · rw [List.append_nil, makeDirsFrom, makeDir_of_isDir hdir]
      exact Grows.refl _ s
    · have hsplit : d.parts ++ (above ++ [name]) = d.parts ++ above ++ [name] :=
        (List.append_assoc ..).symm
      have hparent : Path.parent ⟨d.anchor, d.parts ++ (above ++ [name])⟩ =
          ⟨d.anchor, d.parts ++ above⟩ := by
        rw [Path.parent, hsplit, List.dropLast_concat]
      have hlast : Path.name ⟨d.anchor, d.parts ++ (above ++ [name])⟩ = name := by
        rw [Path.name, hsplit, List.getLast?_concat, Option.getD_some]
      have hstep {files files' : FileStore}
          (h : files.makeDir ⟨d.anchor, d.parts ++ (above ++ [name])⟩ = .ok files') :
          Grows (above ++ [name]) files files' :=
        grows_makeDir (by simp [hlast]) (by simp) (by rw [hlast]; exact hnames name (by simp)) h
      have hbefore : Grows (above ++ [name]) s
          (makeDirsFrom s ⟨d.anchor, d.parts ++ above⟩ depth).2 :=
        (ih fun n hn => hnames n (by simp [hn])).mono (List.subset_append_left above [name])
      rw [makeDirsFrom]
      split
      · exact hstep ‹_›
      · split
        · split
          · exact Grows.refl _ s
          · rw [hparent]
            split
            · rename_i heq
              rwa [heq] at hbefore
            · rename_i heq
              rw [heq] at hbefore
              split
              · exact hbefore.trans (hstep ‹_›)
              · exact hbefore
        · exact Grows.refl _ s

/-- **Making directories behind one that is there.** -/
theorem grows_makeDirs (hdir : s.isDir? d = .ok true) (hnames : ∀ name ∈ names, name ≠ "..") :
    Grows names s (s.makeDirs ⟨d.anchor, d.parts ++ names⟩).2 :=
  grows_makeDirsFrom hdir _ hnames

end FileStore

end ModulePins
