import ModulePins.Proofs.Emission.Additions
import ModulePins.Proofs.Emission.Again
import ModulePins.Proofs.Workspace.Publish
import ModulePins.Proofs.Workspace.Rereading

/-!
# The first run

What publishing leaves in the files of a workspace that has no cache yet. The documents go into
directories below the modules, and the cache into one below the workspace directory. Whatever the
documents' files held before, all documents are written, since the cache knows of none.

Only links can get what is written into the way of what is read, and `Harmless` says that they do
not.

## Main definitions

* `Workspace.writes`, `Workspace.reads` — the files that are written, and the paths that are read
* `Workspace.Harmless` — no link gets the ones into the way of the others
* `Workspace.Beginning`, `Workspace.Finished` — before the first run, and behind it

## Main results

* `Workspace.harmless_of_no_link` — without links there is no harm
* `Workspace.Beginning.finished` — what publishing leaves
-/

namespace ModulePins

open ModulePins.Task FileStore Emission

/-! ### Outputs -/

theorem Coordinate.suffix_fileName (c : Coordinate) : ".water.json".toList <:+ c.fileName.toList :=
  ⟨c.artifactId.toList ++ ['-'] ++ c.version.toList, by simp [fileName, extension]⟩

theorem Coordinate.isName_fileName (c : Coordinate) (hartifact : '/' ∉ c.artifactId.toList)
    (hversion : '/' ∉ c.version.toList) : Path.IsName c.fileName := by
  have htext : c.fileName.toList =
      c.artifactId.toList ++ ['-'] ++ c.version.toList ++ ".water.json".toList := by
    simp [fileName, extension]
  have hlong : 10 < c.fileName.toList.length := by
    rw [htext]
    simp
    omega
  have hne {name : String} (hshort : name.toList.length ≤ 10) : c.fileName ≠ name := fun heq => by
    rw [heq] at hlong
    omega
  refine ⟨hne (by decide), ?_, hne (by decide), hne (by decide)⟩
  rw [htext]
  simp [hartifact, hversion]

namespace Workspace

variable {w w₀ w' : Workspace} {S S' T : Session} {p : Project} {files : FileStore} {path root : Path}
  {r : WalkRules} {segments : Segments} {force : Bool} {es : List Emission}

/-! ### Directories -/

/-- The workspace directory and those of the modules are there. -/
structure Housed (w : Workspace) (files : FileStore) : Prop where
  root : files.isDir? w.root = .ok true
  directories : ∀ p ∈ w.projects, files.isDir? p.directory = .ok true

theorem names_of_holdsModule (hwell : files.WellFormed) (h : files.HoldsModule root r segments) :
    (∀ name ∈ segments, Path.IsName name) ∧
      root.join segments = ⟨root.anchor, root.parts ++ segments⟩ := by
  have hnames : ∀ name ∈ segments, Path.IsName name := fun name hname =>
    hwell.named _ _ (h.leads segments List.prefix_rfl) name (List.mem_append_right _ hname)
  exact ⟨hnames, Path.join_names root hnames⟩

theorem isDir?_of_holdsModule (hwell : files.WellFormed) (hanchor : root.anchor = .root)
    (h : files.HoldsModule root r segments) :
    files.isDir? root = .ok true ∧ files.isDir? (root.join segments) = .ok true := by
  have hdir {names : Segments} (hnames : names <+: segments) :
      files.isDir? ⟨.root, root.parts ++ names⟩ = .ok true :=
    isDir?_eq_true_iff_locate.mpr ⟨_, hwell.locate (h.leads names hnames), h.leads names hnames⟩
  have hroot : root = ⟨.root, root.parts ++ []⟩ := by rw [List.append_nil, ← hanchor]
  constructor
  · rw [hroot]
    exact hdir List.nil_prefix
  · rw [(names_of_holdsModule hwell h).2, hanchor]
    exact hdir List.prefix_rfl

/-- A module with a document has a module file. -/
theorem SetUp.isFile?_of_published (h : w.SetUp files) (hp : p ∈ w.published) :
    files.isFile? (w.filePath p) = .ok true := by
  obtain ⟨hmem, henabled⟩ := List.mem_filter.mp hp
  by_contra hno
  have hfile : w.fileOf files p = none := by
    rw [fileOf, ModuleFile.at?, ModuleFile.contents]
    split
    · rfl
    · rfl
    · rename_i hyes
      exact absurd hyes hno
  have hmade := h.made p hmem
  rw [hfile] at hmade
  have hdisabled : p.descriptor.enabled = false :=
    (congrArg (·.descriptor.enabled) hmade).trans rfl
  rw [hdisabled] at henabled
  cases henabled

/-- The modules lie in the workspace directory and in those in which the walk found modules. -/
theorem directory_of_configure {r : Except Fault Unit} (hwell : S.files.WellFormed)
    (hunconfigured : w₀.configured = false) (hprojects : w₀.projects = [])
    (hdone : exec configure (w₀, S) = (r, (w, S'))) (hp : p ∈ w.projects) :
    p.directory = w₀.root ∨ ∃ segments, S.files.HoldsModule w₀.root w₀.rules segments ∧
      p.directory = w₀.root.join segments := by
  have hsite : (p.address, p.directory) ∈ w.sites := mem_sites_iff.mpr ⟨p, hp, rfl, rfl⟩
  rw [sites_configure hunconfigured hprojects hwell.distinct hdone, List.mem_cons] at hsite
  rcases hsite with hsite | hsite
  · exact .inl (Prod.mk.inj hsite).2
  · obtain ⟨m, hm, hsite⟩ := List.mem_map.mp hsite
    obtain ⟨segments, hmarked, hmodule, -⟩ :=
      (WalkRules.mem_modules_iff (distinct_tree hwell.distinct w₀.root)).mp (List.mem_filter.mp hm).1
    refine .inr ⟨segments, (marked_iff hwell.distinct).mp hmarked, ?_⟩
    exact (Prod.mk.inj hsite).2.symm.trans (congrArg FoundModule.directory hmodule)

/-- When there are documents, there are the directories for them. -/
theorem housed_of_configure (hwell : S.files.WellFormed) (hfresh : w₀.Fresh)
    (hprojects : w₀.projects = []) (hanchor : w₀.root.anchor = .root)
    (hstandard : w₀.settings = .standard) (hdone : exec configure (w₀, S) = (.ok (), (w, S')))
    (hne : w.published ≠ []) : w.Housed S.files := by
  obtain ⟨hroot, hsettings, -, hfiles⟩ := configure_keeps hfresh.unconfigured hdone
  have hplace : ∀ p ∈ w.projects, p.directory = w.root ∨
      S.files.isDir? w.root = .ok true ∧ S.files.isDir? p.directory = .ok true := by
    intro p hp
    rw [hroot]
    rcases directory_of_configure hwell hfresh.unconfigured hprojects hdone hp with
      hdirectory | ⟨segments, hmodule, hdirectory⟩
    · exact .inl hdirectory
    · rw [hdirectory]
      exact .inr (isDir?_of_holdsModule hwell hanchor hmodule)
  have hroot : S.files.isDir? w.root = .ok true := by
    obtain ⟨p, hp⟩ := List.exists_mem_of_ne_nil _ hne
    rcases hplace p (List.mem_filter.mp hp).1 with hdirectory | ⟨hdir, -⟩
    · have hfile := (hfresh.setUp hdone).isFile?_of_published hp
      have hname : Path.IsName "water.yaml" := by decide
      rw [filePath, hfiles, hsettings, hstandard, hdirectory] at hfile
      obtain ⟨l, b, hl, -⟩ := isFile?_eq_true_iff_locate.mp hfile
      obtain ⟨above, habove, hsolid⟩ := directory_above (hwell.solid hwell.home)
        (by simp [Settings.standard, hname]) (by simp [Settings.standard, hname]) hl
      refine isDir?_eq_true_iff_locate.mpr ⟨above, ?_, hsolid.directory⟩
      simpa [Settings.standard, hname] using habove
    · exact hdir
  refine ⟨hroot, fun p hp => ?_⟩
  rcases hplace p hp with hdirectory | ⟨-, hdir⟩
  · exact hdirectory ▸ hroot
  · exact hdir

/-! ### Publishing for the first time -/

/-- The files that publishing writes. -/
def writes (w : Workspace) : List Path := w.published.map w.outputOf ++ w.cache.places

/-- The paths at which settings and modules are read. -/
def reads (w : Workspace) : List Path :=
  Settings.stateDir w.root :: Settings.overridePath w.root :: w.projects.map w.filePath

/-- Links do not get what publishing writes into the way of what is read. -/
structure Harmless (w : Workspace) (files : FileStore) : Prop where
  /-- No output is the cache file or its temporary file. -/
  places : ∀ p ∈ w.published, ∀ o ∈ w.cache.places, Apart files (w.outputOf p) o
  /-- These two are no links. -/
  direct : ∀ o ∈ w.cache.places, ¬ EndsInLink files o
  /-- Nothing is read from a file that is written. -/
  reads : ∀ q ∈ w.reads, ∀ o ∈ w.writes, Apart files o q
  /-- No file that is written is taken for a module file. -/
  marks : ∀ o ∈ w.writes, ∀ l, files.realPath o = .ok ⟨.root, l⟩ →
    l.getLast? ≠ some w.settings.moduleFile.val
  /-- Nothing is read through a broken link. -/
  unbroken : ∀ q ∈ w.reads, EndsInLink files q → files.exists? q = .ok true

theorem outputOf_eq (hstandard : w.settings = .standard) (p : Project) :
    w.outputOf p = p.directory / "build" / "water" / p.coordinate.fileName := by
  rw [outputOf, hstandard]
  rfl

theorem cachePath_eq (hstandard : w.settings = .standard) :
    cachePath w.root w.settings = w.root / ".water" / "descriptor-cache.json" := by
  rw [hstandard]
  rfl

/-! ### Without links -/

/-- The names of what is read. -/
def readNames : List String := [".water", "config.yaml", "water.yaml"]

/-- The names of the cache file and its temporary file. -/
def cacheNames : List String := ["descriptor-cache.json", "descriptor-cache.tmp"]

theorem isName_readNames : ∀ name ∈ readNames, Path.IsName name := by decide

theorem isName_cacheNames : ∀ name ∈ cacheNames, Path.IsName name := by decide

theorem name_of_mem_reads (hstandard : w.settings = .standard) {q : Path} (hq : q ∈ w.reads) :
    ∃ (d : Path) (name : String), q = d / name ∧ name ∈ readNames := by
  rcases List.mem_cons.mp hq with rfl | hq
  · exact ⟨_, _, rfl, by decide⟩
  rcases List.mem_cons.mp hq with rfl | hq
  · exact ⟨_, _, rfl, by decide⟩
  · obtain ⟨p, -, rfl⟩ := List.mem_map.mp hq
    exact ⟨p.directory, "water.yaml", by rw [filePath, hstandard]; rfl, by decide⟩

theorem name_of_mem_places (hstandard : w.settings = .standard)
    (hcache : w.cache = .opened (some (cachePath w.root w.settings))) {o : Path}
    (ho : o ∈ w.cache.places) : ∃ (d : Path) (name : String), o = d / name ∧ name ∈ cacheNames := by
  have hstem : Path.stem "descriptor-cache.json" ++ ".tmp" = "descriptor-cache.tmp" := by decide
  have htemp : Cache.temporary (w.root / ".water" / "descriptor-cache.json") =
      w.root / ".water" / "descriptor-cache.tmp" := by
    rw [Cache.temporary, Path.withSuffix, Path.name_div _ (by decide), hstem,
      Path.parts_div _ (by decide), List.dropLast_concat, Path.div_name (w.root / ".water") (by decide),
      Path.div_name (w.root / ".water") (by decide)]
  rw [hcache, Cache.places, Cache.opened, cachePath_eq hstandard] at ho
  simp only [Option.toList_some, List.flatMap_cons, List.flatMap_nil, List.append_nil, htemp,
    List.mem_cons, List.not_mem_nil, or_false] at ho
  rcases ho with rfl | rfl
  · exact ⟨_, _, rfl, by decide⟩
  · exact ⟨_, _, rfl, by decide⟩

theorem fileName_not_mem (c : Coordinate) : c.fileName ∉ readNames ++ cacheNames := by
  have hother : ∀ name ∈ readNames ++ cacheNames, ¬ ".water.json".toList <:+ name.toList := by decide
  exact fun hmem => hother _ hmem c.suffix_fileName

theorem name_of_mem_writes (hstandard : w.settings = .standard)
    (hcache : w.cache = .opened (some (cachePath w.root w.settings)))
    (hnamed : ∀ p ∈ w.published, '/' ∉ p.artifactId.toList ∧ '/' ∉ p.version.toList) {o : Path}
    (ho : o ∈ w.writes) :
    ∃ (d : Path) (name : String), o = d / name ∧ Path.IsName name ∧ name ∉ readNames := by
  rcases List.mem_append.mp ho with ho | ho
  · obtain ⟨p, hp, rfl⟩ := List.mem_map.mp ho
    obtain ⟨hartifact, hversion⟩ := hnamed p hp
    exact ⟨_, _, outputOf_eq hstandard p, p.coordinate.isName_fileName hartifact hversion,
      fun hmem => fileName_not_mem p.coordinate (List.mem_append_left _ hmem)⟩
  · obtain ⟨d, name, rfl, hname⟩ := name_of_mem_places hstandard hcache ho
    have hother : ∀ name ∈ cacheNames, name ∉ readNames := by decide
    exact ⟨d, name, rfl, isName_cacheNames name hname, hother name hname⟩

/-- **Without links** nothing gets into the way: what is written has other names than what is read. -/
theorem harmless_of_no_link (hfree : ∀ l t, files.node? l ≠ some (.link t))
    (hproper : ".." ∉ files.current) (hstandard : w.settings = .standard)
    (hcache : w.cache = .opened (some (cachePath w.root w.settings)))
    (hnamed : ∀ p ∈ w.published, '/' ∉ p.artifactId.toList ∧ '/' ∉ p.version.toList) :
    w.Harmless files := by
  have hlink (p : Path) : ¬ EndsInLink files p := by
    rintro ⟨d, t, -, ht⟩
    exact hfree _ t ht
  have hapart {d d' : Path} {name name' : String} (hname : Path.IsName name)
      (hname' : Path.IsName name') (hne : name ≠ name') : Apart files (d / name) (d' / name') := by
    obtain ⟨above, hreal⟩ := realPath_div (d := d) hfree hproper hname
    obtain ⟨above', hreal'⟩ := realPath_div (d := d') hfree hproper hname'
    exact apart_of_realPath hreal hreal' fun heq =>
      hne (Path.last_eq_of_toString_eq hname.no_slash hname'.no_slash heq)
  exact {
    places := by
      intro p hp o ho
      obtain ⟨hartifact, hversion⟩ := hnamed p hp
      obtain ⟨d, name, rfl, hname⟩ := name_of_mem_places hstandard hcache ho
      rw [outputOf_eq hstandard]
      refine hapart (p.coordinate.isName_fileName hartifact hversion) (isName_cacheNames name hname)
        fun heq => fileName_not_mem p.coordinate ?_
      exact heq ▸ List.mem_append_right _ hname
    direct := fun o _ => hlink o
    reads := by
      intro q hq o ho
      obtain ⟨d, name, rfl, hname, hnot⟩ := name_of_mem_writes hstandard hcache hnamed ho
      obtain ⟨d', name', rfl, hname'⟩ := name_of_mem_reads hstandard hq
      exact hapart hname (isName_readNames name' hname') (ne_of_mem_of_not_mem hname' hnot).symm
    marks := by
      intro o ho l hl
      obtain ⟨d, name, rfl, hname, hnot⟩ := name_of_mem_writes hstandard hcache hnamed ho
      obtain ⟨above, hreal⟩ := realPath_div (d := d) hfree hproper hname
      have hfile : Settings.standard.moduleFile.val ∈ readNames := by decide
      rw [hreal] at hl
      cases hl
      rw [List.getLast?_concat, hstandard]
      exact fun heq => hnot (Option.some.inj heq ▸ hfile)
    unbroken := fun q _ hbroken => absurd hbroken (hlink q) }

/-- A workspace with the packaged settings that has been configured, and has no cache file yet. -/
structure Beginning (w : Workspace) (files : FileStore) : Prop where
  consistent : w.Consistent
  configured : w.configured = true
  standard : w.settings = .standard
  cache : w.cache = .opened (some (cachePath w.root w.settings))
  wellFormed : files.WellFormed
  blank : files.exists? (cachePath w.root w.settings) = .ok false
  housed : w.Housed files
  named : ∀ p ∈ w.published, '/' ∉ p.artifactId.toList ∧ '/' ∉ p.version.toList
  apart : w.published.Pairwise fun p q => Apart files (w.outputOf p) (w.outputOf q)
  harmless : w.Harmless files

theorem Beginning.isName_fileName (h : w.Beginning files) (hp : p ∈ w.published) :
    Path.IsName p.coordinate.fileName :=
  p.coordinate.isName_fileName (h.named p hp).1 (h.named p hp).2

theorem Beginning.parent_outputOf (h : w.Beginning files) (hp : p ∈ w.published) :
    (w.outputOf p).parent = ⟨p.directory.anchor, p.directory.parts ++ ["build", "water"]⟩ := by
  have hname := h.isName_fileName hp
  rw [outputOf_eq h.standard, Path.parent_div _ hname, Path.div_name _ (by decide),
    Path.div_name _ (by decide), List.append_assoc, List.singleton_append]

/-- The cache knows nothing. -/
theorem Beginning.unknown (h : w.Beginning S.files) : Unknown w.jobs w.cache S where
  homed := h.wellFormed.homed
  apart := List.pairwise_map.mpr h.apart
  blank s hs := by
    rw [h.cache] at hs
    cases hs
  empty := by
    intro _ path hpath l hl
    rw [h.cache] at hpath
    cases hpath
    have hno := h.blank
    rw [cachePath_eq h.standard] at hno hl
    refine no_file_of_not_exists h.wellFormed (by decide) (by decide) (by decide) (by decide)
      h.housed.root (h.harmless.unbroken _ List.mem_cons_self) ?_ hno hl
    rw [← cachePath_eq h.standard]
    exact h.harmless.direct _ (by simp [h.cache, Cache.places, Cache.opened])
  cacheApart := by
    intro j hj path hpath
    obtain ⟨p, hp, rfl⟩ := List.mem_map.mp hj
    exact h.harmless.places p hp path (by
      rw [Cache.places, hpath]
      simp)

/-- Nothing has changed but the files that are written and the directories for them; the documents
are published for caches to come, and the cache can be saved again. -/
structure Finished (w : Workspace) (files files' : FileStore) : Prop where
  adds : Adds w.writes ["build", "water", ".water"] files files'
  replaceable : Cache.Replaceable files' (cachePath w.root w.settings)
  published : ∀ p ∈ w.published, ∃ d, w.textOf p = .ok d ∧
    ∀ T : Session, T.files = files' → Published d (w.outputOf p) w.cache T

/-- **What publishing for the first time leaves.** -/
theorem Beginning.finished (h : w.Beginning S.files) (hne : w.published ≠ [])
    (hdone : exec (finalize force) (w, S) = (.ok es, (w', S'))) : w.Finished S.files S'.files := by
  have hwell := h.wellFormed
  have hhome := hwell.homed
  have hpath : w.cache.path = some (cachePath w.root w.settings) := by rw [h.cache]; rfl
  obtain ⟨c, c', S₁, hchain, hsave⟩ := h.consistent.chain_of_finalize h.configured hdone
  have hjobs : w.jobs ≠ [] := by simpa [jobs] using hne
  have hstep : w.cache.InStep S.files := h.cache ▸ Cache.inStep_opened _ _
  obtain ⟨htouches, -, hchanged, hstate, hpublished⟩ := h.unknown.emitted hstep hchain hjobs
  have hlinks := htouches.toSameLinks
  have hhome₁ := hhome.mono hlinks
  obtain ⟨-, hsame, hsound⟩ := (hchain.series hhome).frame hhome
  have hplaces : c.places = w.cache.places := by rw [Cache.places, Cache.places, hsame]
  have hgrows : Grows ["build", "water"] S.files S₁.files :=
    hchain.grows hhome (by decide) fun j hj => by
      obtain ⟨p, hp, rfl⟩ := List.mem_map.mp hj
      exact ⟨p.directory, h.housed.directories p (List.mem_filter.mp hp).1, h.parent_outputOf hp⟩
  obtain ⟨s, hs⟩ := Option.ne_none_iff_exists'.mp hstate
  have hparent : (cachePath w.root w.settings).parent = ⟨w.root.anchor, w.root.parts ++ [".water"]⟩ := by
    rw [cachePath_eq h.standard, Path.parent_div _ (by decide), Path.div_name _ (by decide)]
  obtain ⟨hadds, hreplaceable, hfinds⟩ := Cache.adds_of_save hhome₁
    (hlinks.current ▸ (hwell.solid hwell.home).mono hlinks.toKeeps) (isDir?_mono hlinks h.housed.root)
    hparent (by decide) (fun p hp => mt hlinks.endsInLink (h.harmless.direct p (hplaces ▸ hp)))
    (hsame.trans hpath) hs hchanged (hsound h.consistent.sound s hs) hsave
  have hall := Adds.trans ⟨htouches, hgrows⟩ hadds
  refine ⟨?_, hreplaceable, fun p hp => ?_⟩
  · rw [writes, ← hplaces]
    rwa [jobs, List.map_map] at hall
  · obtain ⟨d, hd, hhere⟩ := hpublished (w.jobOf p) (List.mem_map_of_mem hp)
    refine ⟨d, hd, fun T hT => ?_⟩
    rw [h.cache]
    refine hhere.saved hhome₁ hstate (hT ▸ hadds.toTouches) (fun o ho => ?_) fun s' hs' => ?_
    · exact ((h.harmless.places p hp o (hplaces ▸ ho)).mono hlinks).symm
    · cases hs.symm.trans hs'
      exact hT ▸ hfinds

end Workspace

end ModulePins
