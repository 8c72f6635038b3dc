import ModulePins.Proofs.Emission.Again

/-!
# Files beside those that are written

Writing files makes directories for them, and that alone can change what another path leads to: a
link that led nowhere gets somewhere, or a file comes to light behind a directory that was not there.
So a frame for the files is not enough here. `Adds ps names` says that nothing but the files with the
real paths of `ps` has changed, and that new directories have one of the `names`.

A path that leads somewhere else than the files that are written then leads to the same as before,
if the directory that it goes into was there, or has been made below one that was, and if it does
not end in a broken link. And the walk finds the same modules, if no file with the name of a module
file has been written.

## Main definitions

* `FileStore.Adds` — what writing files does to a store

## Main results

* `FileStore.Adds.kind?_below`, `FileStore.Adds.kind?_below_made` — what other paths lead to
* `FileStore.Adds.modules_eq` — the modules that a walk finds
-/

namespace ModulePins

namespace FileStore

open Emission

variable {s s' s'' : FileStore} {p d root : Path} {ps qs : List Path} {names names' : List String}
  {name above : String} {l l' : Location} {n : FileNode} {r : WalkRules} {segments : Segments}

/-- Nothing but the files with the real paths of `ps` has changed, and new directories have one of
the `names`. -/
structure Adds (ps : List Path) (names : List String) (s s' : FileStore) : Prop
    extends Touches ps s s' where
  grows : Grows names s s'

theorem Adds.trans (h : Adds ps names s s') (h' : Adds qs names' s' s'') :
    Adds (ps ++ qs) (names ++ names') s s'' :=
  ⟨h.toTouches.trans h'.toTouches,
    (h.grows.mono (List.subset_append_left _ _)).trans (h'.grows.mono (List.subset_append_right _ _))⟩

/-! ### What paths lead to -/

/-- A path into a directory that does not end in a link leads to the location below it. -/
theorem locate_div (hhome : Homed s) (hname : Path.IsName name)
    (hshort : ¬ nameLimit < name.utf8ByteSize) (hd : s.locate d true = .ok l)
    (hdir : s.node? l = some .directory) (hends : ¬ EndsInLink s (d / name)) :
    s.locate (d / name) true = .ok (l ++ [name]) := by
  have hnolink : ∀ t, s.node? (l ++ [name]) ≠ some (.link t) := fun t ht =>
    hends ⟨l, t, by simp [hname, (realPath_of_locate hhome hd).1], by simpa [hname] using ht⟩
  have hbelow : s.locate (d / name) true = .ok (l ++ [(d / name).name]) := locate_below (by simp [hname])
    (by simpa [hname] using hname.ne_up) (by simpa [hname] using hshort)
    (by simpa [hname] using hd) hdir (by simpa [hname] using hnolink)
  simpa [hname] using hbelow

/-- A path into a directory leads somewhere, unless it ends in a broken link. -/
theorem locate_div_cases (hhome : Homed s) (hname : Path.IsName name)
    (hshort : ¬ nameLimit < name.utf8ByteSize) (hd : s.locate d true = .ok l)
    (hdir : s.node? l = some .directory)
    (hlink : EndsInLink s (d / name) → s.exists? (d / name) = .ok true) :
    s.locate (d / name) true = .ok (l ++ [name]) ∨
      ∃ l' n, s.locate (d / name) true = .ok l' ∧ s.node? l' = some n := by
  by_cases hends : EndsInLink s (d / name)
  · obtain ⟨n, hn⟩ := exists?_eq_true_iff_kind?.mp (hlink hends)
    obtain ⟨l', hl', hnode⟩ := kind?_eq_some_iff.mp hn
    exact .inr ⟨l', n, hl', hnode⟩
  · exact .inl (locate_div hhome hname hshort hd hdir hends)

/-- What is found anew, at a place where nothing is written, is a directory with a new name. -/
theorem Adds.directory_of_new (h : Adds ps names s s') (hhome : Homed s)
    (hl : s'.locate p true = .ok l) (hapart : ∀ o ∈ ps, Apart s o p) (hnode : s'.node? l = some n)
    (hnone : s.node? l = none) : ∃ mid, ∃ name ∈ names, l = mid ++ [name] := by
  have hlinks := h.toSameLinks
  cases n with
  | directory => exact (h.grows.directories l hnode).resolve_left (by simp [hnone])
  | file b =>
    have hreal := hlinks.realPath (realPath_of_locate (hhome.mono hlinks) hl).1
    have hfile := (file_iff_of_apart h.toTouches hapart hreal).mp hnode
    rw [hnone] at hfile
    cases hfile
  | link t =>
    have hlink := hlinks.links l t hnode
    rw [hnone] at hlink
    cases hlink

/-- Where there was nothing, and nothing is written, there is nothing under a name that is not new. -/
theorem Adds.node?_eq_none (h : Adds ps names s s') (hhome : Homed s) (hname : name ∉ names)
    (hl : s'.locate p true = .ok (l ++ [name])) (hapart : ∀ o ∈ ps, Apart s o p)
    (hnone : s.node? (l ++ [name]) = none) : s'.node? (l ++ [name]) = none := by
  by_contra hsome
  obtain ⟨n, hn⟩ := Option.ne_none_iff_exists'.mp hsome
  obtain ⟨mid, name', hname', heq⟩ := h.directory_of_new hhome hl hapart hn hnone
  obtain ⟨-, hsame⟩ := List.append_inj' heq rfl
  exact hname ((List.cons.inj hsame).1 ▸ hname')

/-- Where there is a directory now, and was none, there was nothing. -/
theorem Adds.node?_eq_none_of_made (h : Adds ps names s s') (hhome : Homed s)
    (hapart : ∀ o ∈ ps, Apart s o p) (hwas : s.isDir? p ≠ .ok true)
    (hmade : s'.isDir? p = .ok true) (hl : s.locate p true = .ok l) : s.node? l = none := by
  have hreal := (realPath_of_locate hhome hl).1
  obtain ⟨l', hl', hdir⟩ := isDir?_eq_true_iff_locate.mp hmade
  obtain rfl : l = l' := Except.ok.inj ((locate_mono h.toSameLinks hl).symm.trans hl')
  by_contra hsome
  obtain ⟨n, hn⟩ := Option.ne_none_iff_exists'.mp hsome
  cases n with
  | directory => exact hwas (isDir?_eq_true_iff_locate.mpr ⟨l, hl, hn⟩)
  | file b =>
    have hfile := (file_iff_of_apart h.toTouches hapart hreal).mpr hn
    rw [hdir] at hfile
    cases hfile
  | link t => exact (realPath_of_locate hhome hl).2.not_link t hn

/-- **A path that leads somewhere** leads to the same, if nothing else is written there or made. -/
theorem Adds.kind?_of_locate (h : Adds ps names s s') (hhome : Homed s)
    (hl : s.locate p true = .ok l) (hapart : ∀ o ∈ ps, Apart s o p)
    (hnew : s.node? l = none → ∃ mid, ∃ name ∉ names, l = mid ++ [name]) :
    s'.kind? p = s.kind? p := by
  have hlinks := h.toSameLinks
  have hl' := locate_mono hlinks hl
  have hreal := (realPath_of_locate hhome hl).1
  suffices hnode : s'.node? l = s.node? l by
    rw [kind?, kind?, hl, hl']
    exact congrArg Except.ok hnode
  cases hnode : s.node? l with
  | none =>
    obtain ⟨mid, name, hname, rfl⟩ := hnew hnode
    exact h.node?_eq_none hhome hname hl' hapart hnode
  | some n =>
    cases n with
    | directory => exact hlinks.directories l hnode
    | file b => exact (file_iff_of_apart h.toTouches hapart hreal).mpr hnode
    | link t => exact hlinks.kept l t hnode

/-- **A path into a directory** leads to the same. -/
theorem Adds.kind?_below (h : Adds ps names s s') (hhome : Homed s) (hname : Path.IsName name)
    (hshort : ¬ nameLimit < name.utf8ByteSize) (hnew : name ∉ names)
    (hdir : s.isDir? d = .ok true) (hapart : ∀ o ∈ ps, Apart s o (d / name))
    (hlink : EndsInLink s (d / name) → s.exists? (d / name) = .ok true) :
    s'.kind? (d / name) = s.kind? (d / name) := by
  obtain ⟨mid, hmid, hmiddir⟩ := isDir?_eq_true_iff_locate.mp hdir
  rcases locate_div_cases hhome hname hshort hmid hmiddir hlink with hl | ⟨l, n, hl, hn⟩
  · exact h.kind?_of_locate hhome hl hapart fun _ => ⟨mid, name, hnew, rfl⟩
  · exact h.kind?_of_locate hhome hl hapart fun hnone => by rw [hn] at hnone; cases hnone

/-- Nothing is below what is not there. -/
theorem kind?_of_missing (habove : Path.IsName above) (haboveShort : ¬ nameLimit < above.utf8ByteSize)
    (hname : Path.IsName name) (hd : s.locate d true = .ok l) (hdir : s.node? l = some .directory)
    (hnone : s.node? (l ++ [above]) = none) : s.kind? (d / above / name) = .ok none := by
  obtain ⟨left, hleft⟩ := locateFrom_append (locate_eq_ok_iff_from.mp hd) hdir
  have hmissing : locateFrom s true left l [above, name] = .error .notFound := by
    rw [locateFrom, if_neg habove.ne_up, if_neg haboveShort]
    simp [hnone]
  have hstart : s.start (d / above / name) = s.start d := by
    rw [Path.div_name _ hname, Path.div_name _ habove]
    rfl
  rw [kind?, locate, hstart, Path.parts_div _ hname, Path.parts_div _ habove, List.append_assoc,
    List.singleton_append, hleft true [above, name] (by simp), hmissing]
  rfl

/-- **A path into a directory that has been made**, or was there, leads to the same. -/
theorem Adds.kind?_below_made (h : Adds ps names s s') (hs : s.WellFormed)
    (habove : Path.IsName above) (haboveShort : ¬ nameLimit < above.utf8ByteSize)
    (hname : Path.IsName name) (hshort : ¬ nameLimit < name.utf8ByteSize) (hnew : name ∉ names)
    (hdir : s.isDir? d = .ok true) (hmade : s'.isDir? (d / above) = .ok true)
    (hapartAbove : ∀ o ∈ ps, Apart s o (d / above))
    (hapart : ∀ o ∈ ps, Apart s o (d / above / name))
    (hlinkAbove : EndsInLink s (d / above) → s.exists? (d / above) = .ok true)
    (hlink : EndsInLink s (d / above / name) → s.exists? (d / above / name) = .ok true) :
    s'.kind? (d / above / name) = s.kind? (d / above / name) := by
  have hhome := hs.homed
  have hlinks := h.toSameLinks
  have hhome' := hhome.mono hlinks
  by_cases hthere : s.isDir? (d / above) = .ok true
  · exact h.kind?_below hhome hname hshort hnew hthere hapart hlink
  obtain ⟨mid, hmid, hmiddir⟩ := isDir?_eq_true_iff_locate.mp hdir
  obtain ⟨l, hl, hldir⟩ := isDir?_eq_true_iff_locate.mp hmade
  have hnone {l' : Location} (hl' : s.locate (d / above) true = .ok l') : s.node? l' = none :=
    h.node?_eq_none_of_made hhome hapartAbove hthere hmade hl'
  have hbelow : s.locate (d / above) true = .ok (mid ++ [above]) := by
    rcases locate_div_cases hhome habove haboveShort hmid hmiddir hlinkAbove with hl' | ⟨l', n, hl', hn⟩
    · exact hl'
    · rw [hnone hl'] at hn
      cases hn
  have hmissing := kind?_of_missing habove haboveShort hname hmid hmiddir (hnone hbelow)
  obtain rfl : mid ++ [above] = l := Except.ok.inj ((locate_mono hlinks hbelow).symm.trans hl)
  have hnolink : ¬ EndsInLink s' (d / above / name) := fun hends => by
    obtain ⟨n, hn⟩ := exists?_eq_true_iff_kind?.mp (hlink (hlinks.endsInLink hends))
    rw [hmissing] at hn
    cases hn
  have hl' := locate_div hhome' hname hshort hl hldir hnolink
  rw [hmissing, kind?, hl']
  exact congrArg Except.ok
    (h.node?_eq_none hhome hnew hl' hapart (hs.node?_below_eq_none (hnone hbelow) name))

/-- Where nothing is found in a directory, the place does not hold a file either. -/
theorem no_file_of_not_exists (hs : s.WellFormed) (habove : Path.IsName above)
    (haboveShort : ¬ nameLimit < above.utf8ByteSize) (hname : Path.IsName name)
    (hshort : ¬ nameLimit < name.utf8ByteSize) (hdir : s.isDir? d = .ok true)
    (hlinkAbove : EndsInLink s (d / above) → s.exists? (d / above) = .ok true)
    (hlink : ¬ EndsInLink s (d / above / name)) (hno : s.exists? (d / above / name) = .ok false)
    (hl : s.realPath (d / above / name) = .ok ⟨.root, l⟩) (b : ByteArray) :
    s.node? l ≠ some (.file b) := by
  have hhome := hs.homed
  obtain ⟨mid, hmid, hmiddir⟩ := isDir?_eq_true_iff_locate.mp hdir
  obtain ⟨l', hl'⟩ : ∃ l', s.locate (d / above) true = .ok l' := by
    rcases locate_div_cases hhome habove haboveShort hmid hmiddir hlinkAbove with hl' | ⟨l', -, hl', -⟩
    · exact ⟨_, hl'⟩
    · exact ⟨l', hl'⟩
  obtain ⟨n, hfollows⟩ := follows_of_locateFrom (locate_eq_ok_iff_from.mp hl')
  have hnolink : ∀ t, s.node? (l' ++ [name]) ≠ some (.link t) := fun t ht =>
    hlink ⟨l', t, by simp [hname, (realPath_of_locate hhome hl').1], by simpa [hname] using ht⟩
  have hreal : s.realPath (d / above / name) = .ok ⟨.root, l' ++ [name]⟩ := by
    refine realPath_of_follows hhome (n := n + 0) ?_
    rw [Path.parts_div _ hname]
    have hstart : s.start (d / above / name) = s.start (d / above) := by
      rw [Path.div_name _ hname]
      rfl
    exact hstart ▸ hfollows.append (.down hname.ne_up hshort hnolink .done)
  rw [hreal] at hl
  obtain rfl : l' ++ [name] = l := (Path.mk.inj (Except.ok.inj hl)).2
  intro hb
  have hfound := locate_div hhome hname hshort hl' (hs.grounded _ _ _ hb) hlink
  have hyes := exists?_eq_true_iff_kind?.mpr ⟨_, kind?_eq_some_iff.mpr ⟨_, hfound, hb⟩⟩
  rw [hno] at hyes
  cases hyes

/-! ### Modules -/

/-- **The directories of modules** are the same, if no file is written with the name of a module
file. -/
theorem Touches.holdsModule_iff (h : Touches ps s s') (hs : s.WellFormed)
    (hmarks : ∀ o ∈ ps, ∀ l, s.realPath o = .ok ⟨.root, l⟩ → l.getLast? ≠ some r.moduleFile) :
    s'.HoldsModule root r segments ↔ s.HoldsModule root r segments := by
  have hfile (b : ByteArray) : s'.node? (root.parts ++ segments ++ [r.moduleFile]) = some (.file b) ↔
      s.node? (root.parts ++ segments ++ [r.moduleFile]) = some (.file b) :=
    h.file_iff _ (fun o ho hreal => hmarks o ho _ hreal List.getLast?_concat) b
  constructor
  · rintro ⟨hbelow, hincluded, -, n, hn, hnodir⟩
    have hentry : s.node? (root.parts ++ segments ++ [r.moduleFile]) = some n := by
      cases n with
      | directory => exact absurd rfl hnodir
      | file b => exact (hfile b).mp hn
      | link t => exact h.toSameLinks.links _ t hn
    have hsolid := hs.solid (hs.grounded _ _ _ hentry)
    exact ⟨hbelow, hincluded,
      fun above habove => hsolid _ ((List.prefix_append_right_inj root.parts).mpr habove),
      n, hentry, hnodir⟩
  · rintro ⟨hbelow, hincluded, hleads, n, hn, hnodir⟩
    refine ⟨hbelow, hincluded, fun above habove => h.directories _ (hleads above habove), n, ?_,
      hnodir⟩
    cases n with
    | directory => exact absurd rfl hnodir
    | file b => exact (hfile b).mpr hn
    | link t => exact h.toSameLinks.kept _ t hn

/-- **A walk finds the same modules**, if no file is written with the name of a module file. -/
theorem Adds.modules_eq (h : Adds ps names s s') (hs : s.WellFormed)
    (hmarks : ∀ o ∈ ps, ∀ l, s.realPath o = .ok ⟨.root, l⟩ → l.getLast? ≠ some r.moduleFile) :
    (r.walk (s'.tree root)).1.modules = (r.walk (s.tree root)).1.modules := by
  have hdistinct := h.grows.distinct hs.distinct
  refine WalkRules.modules_congr (distinct_tree hs.distinct root) (distinct_tree hdistinct root) rfl
    fun segments => ?_
  rw [marked_iff hs.distinct, marked_iff hdistinct, h.toTouches.holdsModule_iff hs hmarks]

end FileStore

/-! ### Saving -/

namespace Cache

open FileStore ModulePins.Task

variable {c c' : Cache} {S S' : Session} {s : CacheState} {path d : Path} {names : List String}

/-- **Saving the cache** for the first time. -/
theorem adds_of_save (hhome : Homed S.files) (hsolid : Solid S.files S.files.current)
    (hdir : S.files.isDir? d = .ok true) (hparent : path.parent = ⟨d.anchor, d.parts ++ names⟩)
    (hnames : ∀ name ∈ names, name ≠ "..") (hlink : ∀ p ∈ c.places, ¬ EndsInLink S.files p)
    (hpath : c.path = some path) (hstate : c.state = some s) (hchanged : c.changed = true)
    (hsound : s.Sound) (h : exec save (c, S) = (.ok (), (c', S'))) :
    Adds c.places names S.files S'.files ∧ Replaceable S'.files path ∧
      Finds S'.files path s.digests := by
  have hlinks : ¬ EndsInLink S.files path ∧ ¬ EndsInLink S.files (temporary path) := by
    simpa [places, hpath] using hlink
  obtain ⟨r, c₁, files, log, hexec, htouches, -, hfinds⟩ := exec_save_touches (c := c) hhome
    (fun p hp => by cases hpath.symm.trans hp; exact hlinks) (fun s' hs' => by
      cases hstate.symm.trans hs'; exact hsound)
  rw [h] at hexec
  cases hexec
  obtain ⟨dirs, written, hmade, hwrote, hmoved⟩ := saved_of_exec hpath hstate hchanged h
  have hextends : Extends S.files dirs := by
    have := extends_makeDirs S.files path.parent
    rwa [hmade] at this
  obtain ⟨hwritten, l, -, -, hl, hb⟩ := written_touches hhome hextends hwrote
  have hsame := hwritten.toSameLinks
  have hread : written.readBytes (temporary path) = .ok (s.toJson.toText .ascii).toUTF8 :=
    readBytes_eq_ok_iff_locate.mpr ⟨l, hl, hb⟩
  have htemp := mt hsame.endsInLink hlinks.2
  have hhome' := hhome.mono hsame
  have hgrows : Grows names S.files dirs := by
    have := grows_makeDirs (s := S.files) hdir hnames
    rwa [← hparent, hmade] at this
  exact ⟨⟨htouches, (hgrows.trans (grows_writeBytes hwrote)).trans
      (grows_replace hread hhome' htemp (name_temporary path) hmoved)⟩,
    replaceable_of_replaced hhome' (hsame.current ▸ hsolid.mono hsame.toKeeps) htemp
      (mt hsame.endsInLink hlinks.1) hread hmoved,
    hfinds rfl (fun hunchanged => by rw [hchanged] at hunchanged; cases hunchanged) path hpath s hstate⟩

end Cache

end ModulePins
