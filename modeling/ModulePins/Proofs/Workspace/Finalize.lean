import ModulePins.Proofs.ModuleFile.Outcome
import ModulePins.Proofs.Workspace.Modules
import ModulePins.Proofs.Workspace.Publish

/-!
# What publishing leaves

Publishing all modules of a workspace emits what rendering each of them shows. A module that
inherits a cycle ends it: what was published before is there and stays known, and nothing behind is
touched. This holds for either value of `force`, as long as no file operation fails.

That the documents do not get into each other's way is part of what publishing relies on, and so is
that they do not get into the way of the cache: `Ready` says that no output is the cache file or the
temporary file by way of which it is saved, and that these two are no links.

## Main definitions

* `Workspace.Ready` — what publishing relies on
* `Workspace.Shows`, `Workspace.Remembers` — what it leaves for a module, now and for later

## Main results

* `Workspace.finalize_spec` — the modules before the first cycle are published
* `Workspace.finalize_publishes` — all modules, or those before a given one
-/

namespace ModulePins

namespace Workspace

open ModulePins.Task Emission FileStore

variable {w w' : Workspace} {S S' : Session} {p : Project} {force : Bool}
  {r : Except Fault (List Emission)}

/-- What publishing relies on. -/
structure Ready (w : Workspace) (S : Session) : Prop where
  fit : Fit w.jobs w.cache S
  /-- No output is the cache file or its temporary file. -/
  places : ∀ p ∈ w.published, ∀ o ∈ w.cache.places, Apart S.files (w.outputOf p) o
  /-- These two are no links. -/
  direct : ∀ path ∈ w.cache.path,
    ¬ EndsInLink S.files path ∧ ¬ EndsInLink S.files (Cache.temporary path)
  inStep : w.cache.InStep S.files

/-- The file of a module holds exactly what rendering the module shows. -/
def Shows (w : Workspace) (files : FileStore) (p : Project) : Prop :=
  ∃ text, files.readBytes (w.outputOf p) = .ok text.toUTF8 ∧
    ∀ S, (exec (render p.address false) (w, S)).1 = .ok text

/-- A path leads to the same bytes, and so does the place to which it leads if it can. -/
def Unchanged (files files' : FileStore) (o : Path) : Prop :=
  (∀ b, files.readBytes o = .ok b → files'.readBytes o = .ok b) ∧
    ∀ l, files.realPath o = .ok ⟨.root, l⟩ → ∀ b,
      files'.node? l = some (.file b) ↔ files.node? l = some (.file b)

/-- When other files have been edited, a new workspace that keeps its cache in the same file and
publishes without force leaves these modules' documents alone, unless they have changed. -/
def Remembers (w : Workspace) (files : FileStore) (ps : List Project) : Prop :=
  ∀ path ∈ w.cache.path, ∀ (edits : List Path) (w₂ : Workspace) (S₂ : Session) (es : List Emission)
    (st : Workspace × Session),
    Touches edits files S₂.files →
    (∀ o ∈ edits, Apart files o path ∧ ∀ p ∈ ps, Apart files o (w.outputOf p)) →
    w₂.Reached → w₂.configured = true → w₂.cache = Cache.opened (some path) →
    (w₂.published.Pairwise fun p q => Apart S₂.files (w₂.outputOf p) (w₂.outputOf q)) →
    exec (finalize false) (w₂, S₂) = (.ok es, st) →
    ∀ x ∈ w₂.published.zip es, ∀ p ∈ ps, w₂.outputOf x.1 = w.outputOf p →
      w₂.textOf x.1 = w.textOf p → x.2.status = .upToDate

theorem unchanged_of_touches {ps : List Path} {files files' : FileStore} {o : Path}
    (hhome : Homed files) (h : Touches ps files files') (hapart : ∀ q ∈ ps, Apart files q o) :
    Unchanged files files' o :=
  ⟨fun _ hb => readBytes_of_apart hhome h hapart hb, fun _ hl _ => file_iff_of_apart h hapart hl⟩

/-- A document that is published is not written again by a new workspace. -/
theorem upToDate_of_published {d : String} {es : List Emission} {st : Workspace × Session}
    (hreached : w.Reached) (hconfigured : w.configured = true) (hhome : Homed S.files)
    (hapart : w.published.Pairwise fun p q => Apart S.files (w.outputOf p) (w.outputOf q))
    (hrun : exec (finalize false) (w, S) = (.ok es, st)) {x : Project × Emission}
    (hx : x ∈ w.published.zip es) (htext : w.textOf x.1 = .ok d)
    (hpublished : Published d (w.outputOf x.1) w.cache S) : x.2.status = .upToDate := by
  obtain ⟨r, c, S₁, hchain, hexec⟩ := hreached.consistent.exec_finalize hconfigured false S
  have hseries := hchain.series hhome
  rw [hrun] at hexec
  have hr : r = .ok es := by
    have hfirst := congrArg Prod.fst hexec
    dsimp only at hfirst
    cases hsave : (exec Cache.save (c, S₁)).1 with
    | error f =>
      rw [hsave] at hfirst
      cases hfirst
    | ok u =>
      rw [hsave] at hfirst
      exact hfirst.symm
  have hjobs : w.jobs.Pairwise fun j k => Apart S.files j.output k.output :=
    List.pairwise_map.mpr hapart
  have hmem : (w.jobOf x.1, x.2) ∈ w.jobs.zip es := by
    rw [jobs, List.zip_map_left]
    exact List.mem_map_of_mem (f := Prod.map w.jobOf id) hx
  exact hseries.upToDate hhome hjobs es hr _ hmem d htext hpublished

/-- What has been published for caches to come is remembered. -/
theorem remembers_of_published {ps : List Project} (hhome : Homed S.files)
    (hthere : ∀ path ∈ w.cache.path, ∀ p ∈ ps, ∃ text, w.textOf p = .ok text ∧
      Published text (w.outputOf p) (Cache.opened (some path)) S) : w.Remembers S.files ps := by
  intro path hpath edits w₂ S₂ es st htouches hedits hreached hconfigured hcache hapart hrun x hx p
    hp houtput htext
  obtain ⟨text, htext', hpublished⟩ := hthere path hpath p hp
  have hedited := hpublished.edited hhome htouches (fun o ho => (hedits o ho).1)
    fun o ho => (hedits o ho).2 p hp
  rw [← houtput, ← hcache] at hedited
  exact upToDate_of_published hreached hconfigured (hhome.mono htouches.toSameLinks) hapart hrun hx
    (htext.trans htext') hedited

/-- Publishing that does not fail because of files is a series of emissions, behind which the cache
has been saved. -/
theorem series_of_finalize (hconsistent : w.Consistent) (hconfigured : w.configured = true)
    (hready : w.Ready S) (hrun : exec (finalize force) (w, S) = (r, (w', S')))
    (hfiles : ∀ f, r = .error f → ¬ f.OfFiles) :
    ∃ c S₁, Series force w.jobs w.cache S r c S₁ ∧ c.path = w.cache.path ∧
      Touches c.places S₁.files S'.files ∧
      (c.InStep S₁.files →
        ∀ path ∈ c.path, ∀ s ∈ c.state, Cache.Finds S'.files path s.digests) := by
  have hhome := hready.fit.homed
  obtain ⟨r₁, c, S₁, hchain, hexec⟩ := hconsistent.exec_finalize hconfigured force S
  have hseries := hchain.series hhome
  obtain ⟨hlinks, hpath, hsound⟩ := hseries.frame hhome
  have hdirect : ∀ path ∈ c.path,
      ¬ EndsInLink S₁.files path ∧ ¬ EndsInLink S₁.files (Cache.temporary path) := by
    intro path hp
    obtain ⟨hfile, htemporary⟩ := hready.direct path (hpath ▸ hp)
    exact ⟨mt hlinks.endsInLink hfile, mt hlinks.endsInLink htemporary⟩
  obtain ⟨r₂, c₂, files, log, hsave, htouches, hfail, hdone⟩ :=
    Cache.exec_save_touches (hhome.mono hlinks) hdirect (hsound hconsistent.sound)
  rw [hrun, hsave] at hexec
  cases r₂ with
  | error f =>
    have hr : r = .error f := congrArg Prod.fst hexec
    exact absurd (hfail f rfl) (hfiles f hr)
  | ok u =>
    cases hexec
    exact ⟨c, S₁, hseries, hpath, htouches, hdone rfl⟩

/-- **What publishing leaves**, unless files fail. The modules before the first one that inherits a
cycle are published; if there is one, publishing fails with its cycle. -/
theorem finalize_spec (hconsistent : w.Consistent) (hconfigured : w.configured = true)
    (hready : w.Ready S) (hrun : exec (finalize force) (w, S) = (r, (w', S')))
    (hfiles : ∀ f, r = .error f → ¬ f.OfFiles) :
    ∃ before rest, w.published = before ++ rest ∧
      (∀ p ∈ before, w.CycleFree p ∧ w.Shows S'.files p) ∧
      (∀ p ∈ rest, Unchanged S.files S'.files (w.outputOf p)) ∧ w.Remembers S'.files before ∧
      ((rest = [] ∧ ∃ es, r = .ok es ∧
          List.Forall₂ (fun p e => ∃ status text, w.textOf p = .ok text ∧
            e = outcome status text (w.outputOf p) p.coordinate) w.published es) ∨
        ∃ p after cycle, rest = p :: after ∧ w.registry.IsCycle (w.positionOf p) cycle ∧
          r = .error (.inheritanceCycle (cycle.map w.registry.label))) := by
  have hhome := hready.fit.homed
  obtain ⟨c, S₁, hseries, hpath, hsaved, hfinds⟩ :=
    series_of_finalize hconsistent hconfigured hready hrun hfiles
  obtain ⟨beforeJobs, restJobs, hjobs, htouches, hstep, hstate, hbefore, hend⟩ :=
    hseries.spec (basis_fit force) hready.fit hfiles hready.inStep
  obtain ⟨before, rest, hpublished, rfl, rfl⟩ := List.map_eq_append_iff.mp hjobs
  have hlinks := htouches.toSameLinks
  have hhome₁ := hhome.mono hlinks
  have hplaces : ∀ p ∈ w.published, ∀ o ∈ c.places, Apart S₁.files o (w.outputOf p) := by
    intro p hp o ho
    have ho' : o ∈ w.cache.places := by rwa [Cache.places, hpath] at ho
    exact ((hready.places p hp o ho').mono hlinks).symm
  have hmem : ∀ p ∈ before, p ∈ w.published := fun p hp =>
    hpublished ▸ List.mem_append_left _ hp
  have hdone : ∀ p ∈ before, ∃ text, w.textOf p = .ok text ∧
      Published text (w.outputOf p) c S₁ := fun p hp => hbefore (w.jobOf p) (List.mem_map_of_mem hp)
  refine ⟨before, rest, hpublished, fun p hp => ?_, fun p hp => ?_, ?_, ?_⟩
  · obtain ⟨text, htext, hthere⟩ := hdone p hp
    refine ⟨cycleFree_iff_textOf.mpr ⟨text, htext⟩, text,
      readBytes_of_apart hhome₁ hsaved (hplaces p (hmem p hp)) hthere.holds, fun S => ?_⟩
    obtain ⟨log, hrender⟩ := exec_render hconsistent hconfigured (hmem p hp) S
    rw [hrender, htext]
    rfl
  · refine unchanged_of_touches hhome (htouches.trans hsaved) fun o ho => ?_
    rcases List.mem_append.mp ho with ho | ho
    · obtain ⟨j, hj, rfl⟩ := List.mem_map.mp ho
      obtain ⟨q, hq, rfl⟩ := List.mem_map.mp hj
      have hpairs := hready.fit.apart
      rw [hjobs, List.pairwise_append] at hpairs
      exact hpairs.2.2 _ hj (w.jobOf p) (List.mem_map_of_mem hp)
    · rw [Cache.places, hpath] at ho
      exact (hready.places p (hpublished ▸ List.mem_append_right _ hp) o ho).symm
  · have hsame : w.cache.path = c.path := hpath.symm
    refine remembers_of_published (hhome₁.mono hsaved.toSameLinks) ?_
    rw [hsame]
    intro path hfile p hp
    obtain ⟨text, htext, hthere⟩ := hdone p hp
    have hread : c.state ≠ none := hstate (List.ne_nil_of_mem (List.mem_map_of_mem hp))
    exact ⟨text, htext, hthere.saved hhome₁ hread hsaved (hplaces p (hmem p hp))
      (hfinds hstep path hfile)⟩
  · rcases hend with ⟨hrest, es, hr⟩ | ⟨j, restJobs, labels, hrest, hlabels, hr⟩
    · refine .inl ⟨List.map_eq_nil_iff.mp hrest, es, hr, ?_⟩
      have hreports := List.forall₂_map_left_iff.mp (hseries.reports es hr)
      refine hreports.imp fun p e he => ?_
      obtain ⟨text, status, htext, rfl⟩ := he
      exact ⟨status, text, htext, rfl⟩
    · obtain ⟨p, after, rfl, rfl, -⟩ := List.map_eq_cons_iff.mp hrest
      obtain ⟨cycle, hcycle, rfl⟩ := isCycle_of_textOf hlabels
      exact .inr ⟨p, after, cycle, rfl, hcycle, hr⟩

open Classical in
/-- The modules before the first one that inherits a cycle. -/
theorem eq_takeWhile_cycleFree {before rest : List Project} (h : w.published = before ++ rest)
    (hbefore : ∀ p ∈ before, w.CycleFree p) (hrest : ∀ p ∈ rest.head?, ¬ w.CycleFree p) :
    before = w.published.takeWhile w.CycleFree := by
  rw [h, List.takeWhile_append_of_pos (by simpa using hbefore)]
  cases rest with
  | nil => simp
  | cons p rest => rw [List.takeWhile_cons_of_neg (by simpa using hrest), List.append_nil]

def knotSettings : Settings :=
  { Settings.standard with
    buildDir := ⟨"b", by decide⟩
    descriptorDir := ⟨"d", by decide⟩
    cacheFile := ⟨"c", by decide⟩ }

/-- The directories of the two modules with their module files, and perhaps more. -/
def knotOf (more : List (Location × FileNode)) (m x : ByteArray) : FileStore where
  nodes :=
    [(["w"], .directory), (["w", "water.yaml"], .file m), (["x"], .directory),
      (["x", "water.yaml"], .file x)] ++ more
  current := []

def tiedBytes : ByteArray := "waterDescriptor:\n  moduleId: m\n  inheritsFrom:\n  - \":\"\n".toUTF8

def freeBytes : ByteArray := "waterDescriptor:\n  moduleId: x\n".toUTF8

def knot : FileStore := knotOf [] tiedBytes freeBytes

def knotSession (files : FileStore) (log : List Record) : Session :=
  ⟨files, log, ⟨.root, []⟩, Stamp.epoch⟩

def knotCache : Path := ⟨.root, ["w", ".water", "c"]⟩

/-- The workspace with these modules. -/
def knotWith (ps : List Project) (d : Option Discovery) : Workspace :=
  ⟨⟨.root, ["w"]⟩, knotSettings, .opened (some knotCache), ps, d, false⟩

/-! The two modules when they have been registered, read, and linked. -/

def freeRegistered : Project :=
  { address := "x", directory := ⟨.root, ["x"]⟩, descriptor := { name := ":x" } }

def freeRead : Project :=
  { freeRegistered with
    descriptor := { name := ":x", moduleId := some "x" }
    artifactId := "x"
    file := some ⟨.root, ["x", "water.yaml"]⟩ }

def tiedRegistered : Project :=
  { address := "", directory := ⟨.root, ["w"]⟩, descriptor := { name := ":" } }

def tiedRead : Project :=
  { tiedRegistered with
    descriptor := { name := ":", moduleId := some "m" }
    artifactId := "w"
    file := some ⟨.root, ["w", "water.yaml"]⟩
    references := [":"] }

def tiedLinked : Project :=
  { tiedRead with descriptor := { name := ":", moduleId := some "m", parents := [1] } }

/-- The workspace when it has been configured. -/
def knotConfigured (d : Option Discovery) : Workspace :=
  { knotWith [freeRead, tiedLinked] d with configured := true }

def freeFile : ModuleFile := ⟨none, none, none, some ⟨some "x", none, none, [], [], [], []⟩⟩

def tiedFile : ModuleFile := ⟨none, none, none, some ⟨some "m", none, none, [":"], [], [], []⟩⟩

def freeOutput : Path := ⟨.root, ["x", "b", "d", "x-unspecified.water.json"]⟩

def tiedOutput : Path := ⟨.root, ["w", "b", "d", "w-unspecified.water.json"]⟩

theorem outputOf_knot (d : Option Discovery) : (knotConfigured d).outputOf freeRead = freeOutput ∧
    (knotConfigured d).outputOf tiedLinked = tiedOutput := by
  constructor <;> cbv

theorem textOf_tied (d : Option Discovery) :
    (knotConfigured d).textOf tiedLinked = .error [":", ":"] := by
  cbv

theorem cycleFree_free (d : Option Discovery) : (knotConfigured d).CycleFree freeRead := by
  have hposition : (knotConfigured d).positionOf freeRead = 0 := by cbv
  have hregistry : (knotConfigured d).registry = [freeRead.descriptor, tiedLinked.descriptor] := rfl
  rw [CycleFree, hposition, hregistry]
  exact Registry.cycleFree_of_descending (n := 1) (by decide) 0 (by decide)

theorem not_cycleFree_tied (d : Option Discovery) : ¬ (knotConfigured d).CycleFree tiedLinked := by
  rw [cycleFree_iff_textOf, textOf_tied]
  simp

/-- The file stores that publishing for the first time leads through, from `F` on: the directory of
an output is made, its document `b` is written, the directory of the cache is made, and the cache `t`
is written and moved. Nothing is known of files before. -/
structure Course (F : FileStore) (output path : Path) where
  homed : Homed F
  unknown : Cache.stored Stamp.epoch F (some path) = .ok .empty
  dirs : FileStore
  made : F.makeDirs output.parent = (.ok (), dirs)
  files : ByteArray → FileStore
  wrote : ∀ b, dirs.writeBytes output b = .ok (files b)
  dirs' : ByteArray → FileStore
  made' : ∀ b, (files b).makeDirs path.parent = (.ok (), dirs' b)
  written : ByteArray → ByteArray → FileStore
  wrote' : ∀ b t, (dirs' b).writeBytes (Cache.temporary path) t = .ok (written b t)
  moved : ByteArray → ByteArray → FileStore
  replaced : ∀ b t, (written b t).replace (Cache.temporary path) path = .ok (moved b t)

section Course

variable {F : FileStore} {output path : Path} (course : Course F output path)
  {d : Option Discovery}

/-- Emitting the document. -/
theorem Course.exec_caching_emit {p : Project} (hcache : w.cache = .opened (some path))
    (houtput : w.outputOf p = output) (text : String) (log : List Record) :
    ∃ s log', exec (caching (emit false text (w.outputOf p) p.coordinate)) (w, knotSession F log) =
      (.ok (outcome .written text output p.coordinate),
        ({ w with cache := ⟨some path, some s, true⟩ }, knotSession (course.files text.toUTF8) log')) := by
  have hknown : Cache.known (Cache.opened (some path)) (knotSession F log) = .ok .empty :=
    course.unknown
  obtain ⟨-, l, hreal, hreal', -⟩ := written_touches course.homed (extends_of_makeDirs course.made)
    (course.wrote text.toUTF8)
  obtain ⟨log', hemit⟩ := exec_emit_new (S := knotSession F log) hknown hreal rfl course.made
    (course.wrote _) hreal' p.coordinate
  refine ⟨CacheState.empty.record (⟨.root, l⟩ : Path).toString ⟨Digest.ofText text, Stamp.epoch⟩,
    log', ?_⟩
  rw [houtput, exec_caching, hcache]
  exact congrArg (fun x => (x.1, ({ w with cache := x.2.1 }, x.2.2))) hemit

/-- Saving the cache. -/
theorem Course.exec_caching_save (w : Workspace) (b : ByteArray) (s : CacheState) (log : List Record) :
    ∃ log', exec (caching Cache.save) ({ w with cache := ⟨some path, some s, true⟩ },
        knotSession (course.files b) log) = (.ok (), ({ w with cache := ⟨some path, some s, false⟩ },
      knotSession (course.moved b (s.toJson.toText .ascii).toUTF8) log')) := by
  obtain ⟨log', hsave⟩ := Cache.exec_save_ok (c := ⟨some path, some s, true⟩)
    (S := knotSession (course.files b) log) rfl rfl rfl (course.made' b) (course.wrote' _ _)
    (course.replaced _ _)
  refine ⟨log', ?_⟩
  rw [exec_caching]
  dsimp only
  rw [hsave]
  rfl

end Course

/-- Publishing the two modules, where all file operations succeed. -/
theorem Course.exec_finalize_knot {F : FileStore} (course : Course F freeOutput knotCache)
    (d : Option Discovery) :
    ∃ text s w' S', (knotConfigured d).textOf freeRead = .ok text ∧
      exec (finalize false) (knotConfigured d, knotSession F []) =
        (.error (.inheritanceCycle [":", ":"]), (w', S')) ∧
      S'.files = course.moved text.toUTF8 ((s : CacheState).toJson.toText .ascii).toUTF8 := by
  obtain ⟨text, htext⟩ := textOf_of_cycleFree (cycleFree_free d)
  have hfree : (knotConfigured d).positionOf freeRead = 0 := by cbv
  have htied : (knotConfigured d).positionOf tiedLinked = 1 := by cbv
  obtain ⟨memo, log₁, hmemo, hfirst⟩ := exec_emitFrom_cons (w := knotConfigured d) rfl hfree
    (Memo.sound_nil _) htext false [tiedLinked] (knotSession F [])
  obtain ⟨s, log₂, hcaching⟩ := course.exec_caching_emit (w := knotConfigured d) rfl
    (outputOf_knot d).1 text log₁
  obtain ⟨log₃, hsecond⟩ := exec_emitFrom_stuck
    (w := { knotConfigured d with cache := ⟨some knotCache, some s, true⟩ }) (p := tiedLinked) rfl
    htied hmemo (textOf_tied d) false [] (knotSession (course.files text.toUTF8) log₂)
  obtain ⟨log₄, hsave⟩ := course.exec_caching_save (knotConfigured d) text.toUTF8 s log₃
  have hemits : exec (emitFrom false [] 0 (knotConfigured d).projects)
      (knotConfigured d, knotSession F []) = (.error (.inheritanceCycle [":", ":"]),
        ({ knotConfigured d with cache := ⟨some knotCache, some s, true⟩ },
          knotSession (course.files text.toUTF8) log₃)) :=
    hfirst.trans ((exec_bind_ok hcaching _).trans (exec_bind_error hsecond _))
  refine ⟨text, s, { knotConfigured d with cache := ⟨some knotCache, some s, false⟩ },
    knotSession (course.moved text.toUTF8 (s.toJson.toText .ascii).toUTF8) log₄, htext, ?_, rfl⟩
  rw [exec_finalize_of_configured rfl, exec_ensuring, hemits]
  dsimp only
  rw [hsave]
  rfl

/-- Links are only among the nodes that are more. -/
theorem mem_of_link_knotOf {more : List (Location × FileNode)} {m x : ByteArray} {l : Location}
    {t : String} (h : (knotOf more m x).node? l = some (.link t)) : (l, .link t) ∈ more := by
  have hmem := mem_nodes_of_node? (by rintro rfl; simp at h) h
  simpa [knotOf] using hmem

theorem realPath_knotOf {more : List (Location × FileNode)} (m x : ByteArray) {p : Path}
    (hp : p.anchor = .root ∧ ".." ∉ p.parts ∧ ∀ e ∈ more, e.1 <+: p.parts → e.2 = .directory) :
    (knotOf more m x).realPath p = .ok p := by
  obtain ⟨anchor, l⟩ := p
  obtain ⟨rfl, hproper, hmore⟩ := hp
  have hreal : IsReal (knotOf more m x) l := isReal_of_links hproper fun above t ht hle => by
    cases hmore _ (mem_of_link_knotOf ht) hle
  exact hreal.realPath

/-! The files while the two modules are published: the first document is written, and then the
cache. -/

def knotDirs (m x : ByteArray) : FileStore :=
  knotOf [(["x", "b"], .directory), (["x", "b", "d"], .directory)] m x

def knotWritten (m x b : ByteArray) : FileStore := (knotDirs m x).put freeOutput.parts (.file b)

def knotState (m x b : ByteArray) : FileStore := (knotWritten m x b).put ["w", ".water"] .directory

def knotTemporary (m x b t : ByteArray) : FileStore :=
  (knotState m x b).put ["w", ".water", "c.tmp"] (.file t)

def knotSaved (m x b t : ByteArray) : FileStore := (knotState m x b).put knotCache.parts (.file t)

def knotCourse (m x : ByteArray) : Course (knotOf [] m x) freeOutput knotCache where
  homed := isReal_nil _
  unknown := by cbv
  dirs := knotDirs m x
  made := by cbv
  files := knotWritten m x
  wrote b := by cbv
  dirs' := knotState m x
  made' b := by cbv
  written := knotTemporary m x
  wrote' b t := by cbv
  moved := knotSaved m x
  replaced b t := by cbv

theorem published_knot (d : Option Discovery) :
    (knotConfigured d).published = [freeRead, tiedLinked] := rfl

def knotOutputs : List Path := [freeOutput, tiedOutput]

/-- Where the documents and the cache are put. -/
def knotTargets : List Path := knotOutputs ++ [knotCache, Cache.temporary knotCache]

theorem realPath_knotTargets (m x : ByteArray) :
    ∀ p ∈ knotTargets, (knotOf [] m x).realPath p = .ok p := by
  have hproper : ∀ p ∈ knotTargets, p.anchor = .root ∧ ".." ∉ p.parts := by decide
  exact fun p hp => realPath_knotOf m x ⟨(hproper p hp).1, (hproper p hp).2, by simp⟩

theorem apart_knotTargets (m x : ByteArray) : knotTargets.Pairwise (Apart (knotOf [] m x)) := by
  have hnames : knotTargets.Pairwise fun p q => p.toString ≠ q.toString := by decide
  exact pairwise_apart (realPath_knotTargets m x) hnames

/-- Before publishing nothing is there. -/
theorem not_file_knotTargets (m x : ByteArray) {p : Path} (hp : p ∈ knotTargets) {l : Location}
    (hl : (knotOf [] m x).realPath p = .ok ⟨.root, l⟩) (b : ByteArray) :
    (knotOf [] m x).node? l ≠ some (.file b) := by
  have hnone : ∀ p ∈ [freeOutput, tiedOutput, knotCache, Cache.temporary knotCache],
      (knotOf [] m x).node? p.parts = none := by
    simp only [List.forall_mem_cons, List.not_mem_nil, false_implies, implies_true]
    exact ⟨rfl, rfl, rfl, rfl, trivial⟩
  rw [realPath_knotTargets m x p hp] at hl
  cases hl
  simp [hnone _ hp]

theorem ready_knot (d : Option Discovery) (m x : ByteArray) :
    (knotConfigured d).Ready (knotSession (knotOf [] m x) []) := by
  obtain ⟨houtputs, -, hplaces⟩ := List.pairwise_append.mp (apart_knotTargets m x)
  have hpaths : (knotConfigured d).published.map (knotConfigured d).outputOf = knotOutputs := by
    simp [published_knot, outputOf_knot d, knotOutputs]
  have houtput {p : Path} (hp : p ∈ (knotConfigured d).published.map (knotConfigured d).outputOf) :
      p ∈ knotOutputs := hpaths ▸ hp
  have hlink (p : Path) : ¬ EndsInLink (knotOf [] m x) p := by
    rintro ⟨l, t, -, ht⟩
    cases mem_of_link_knotOf ht
  exact {
    fit := {
      homed := isReal_nil _
      apart := by
        rw [← hpaths] at houtputs
        exact List.pairwise_map.mpr (List.pairwise_map.mp houtputs)
      cacheApart := by
        rintro j hj path ⟨⟩
        obtain ⟨p, hp, rfl⟩ := List.mem_map.mp hj
        exact hplaces _ (houtput (List.mem_map_of_mem hp)) _ (by simp)
      trusted := {
        state := by rintro s ⟨⟩
        file := by
          rintro - path ⟨⟩ l hl b hb
          exact absurd hb (not_file_knotTargets m x (by simp [knotTargets]) hl b) }
      distinct := by
        intro j hj text htext l hl b hb
        obtain ⟨p, hp, rfl⟩ := List.mem_map.mp hj
        have htarget : (knotConfigured d).outputOf p ∈ knotTargets :=
          List.mem_append_left _ (houtput (List.mem_map_of_mem hp))
        exact absurd hb (not_file_knotTargets m x htarget hl b) }
    places := fun p hp o ho => hplaces _ (houtput (List.mem_map_of_mem hp)) o ho
    direct := fun path _ => ⟨hlink _, hlink _⟩
    inStep := Cache.inStep_opened _ _ }

/-! How the two modules get there. -/

def freeText : String := "waterDescriptor:\n  moduleId: x\n"

def freeMembers : Schema.Members :=
  [(.str "waterDescriptor", .mapping [(.str "moduleId", .str "x")])]

theorem read_free : Yaml.read freeText.toList = .ok (.mapping freeMembers) := by
  have hreadable : freeText.toList.all Yaml.isReadable = true := by cbv
  have htokens : Yaml.tokens freeText.toList =
      [.blockMappingStart, .key, .scalar "waterDescriptor" true, .value, .blockMappingStart, .key,
        .scalar "moduleId" true, .value, .scalar "x" true, .blockEnd, .blockEnd] := by cbv
  rw [Yaml.read, Yaml.node?, hreadable, htokens]
  cbv

def tiedText : String := "waterDescriptor:\n  moduleId: m\n  inheritsFrom:\n  - \":\"\n"

def tiedMembers : Schema.Members :=
  [(.str "waterDescriptor",
    .mapping [(.str "moduleId", .str "m"), (.str "inheritsFrom", .list [.str ":"])])]

theorem read_tied : Yaml.read tiedText.toList = .ok (.mapping tiedMembers) := by
  have hreadable : tiedText.toList.all Yaml.isReadable = true := by cbv
  have htokens : Yaml.tokens tiedText.toList =
      [.blockMappingStart, .key, .scalar "waterDescriptor" true, .value, .blockMappingStart, .key,
        .scalar "moduleId" true, .value, .scalar "m" true, .key, .scalar "inheritsFrom" true, .value,
        .blockEntry, .scalar ":" false, .blockEnd, .blockEnd] := by cbv
  rw [Yaml.read, Yaml.node?, hreadable, htokens]
  cbv

theorem load_free (log : List Record) : ∃ log',
    exec (ModuleFile.load ⟨.root, ["x", "water.yaml"]⟩) (knotSession knot log) =
      (.ok freeFile, knotSession knot log') := by
  have hbytes : knot.readBytes ⟨.root, ["x", "water.yaml"]⟩ = .ok freeText.toUTF8 := by cbv
  have hcontents := ModuleFile.contents_of_text hbytes (by cbv) read_free (m := freeFile) (by cbv)
  exact ⟨_, ModuleFile.exec_load_of_contents hcontents⟩

theorem load_tied (log : List Record) : ∃ log',
    exec (ModuleFile.load ⟨.root, ["w", "water.yaml"]⟩) (knotSession knot log) =
      (.ok tiedFile, knotSession knot log') := by
  have hbytes : knot.readBytes ⟨.root, ["w", "water.yaml"]⟩ = .ok tiedText.toUTF8 := by cbv
  have hcontents := ModuleFile.contents_of_text hbytes (by cbv) read_tied (m := tiedFile) (by cbv)
  exact ⟨_, ModuleFile.exec_load_of_contents hcontents⟩

theorem exec_readAndLink_knot (d : Option Discovery) (log : List Record) : ∃ log',
    exec readAndLink (knotWith [freeRegistered, tiedRegistered] d, knotSession knot log) =
      (.ok (), (knotConfigured d, knotSession knot log')) := by
  obtain ⟨log₁, htied⟩ := load_tied log
  obtain ⟨log₂, hfirst⟩ := exec_loadProject_ok (i := 1)
    (w := knotWith [freeRegistered, tiedRegistered] d) rfl (by cbv) (by cbv) htied (by cbv) none
  have htied' : (knotWith [freeRegistered, tiedRegistered] d).modifyAt 1
      (fun _ => tiedRegistered.loaded ⟨.root, ["w", "water.yaml"]⟩ tiedFile none) =
        knotWith [freeRegistered, tiedRead] d := by cbv
  rw [htied'] at hfirst
  obtain ⟨log₃, hfree⟩ := load_free log₂
  obtain ⟨log₄, hsecond⟩ := exec_loadProject_ok (i := 0)
    (w := knotWith [freeRegistered, tiedRead] d) rfl (by cbv) (by cbv) hfree (by cbv)
    (some tiedFile)
  have hfree' : (knotWith [freeRegistered, tiedRead] d).modifyAt 0
      (fun _ => freeRegistered.loaded ⟨.root, ["x", "water.yaml"]⟩ freeFile (some tiedFile)) =
        knotWith [freeRead, tiedRead] d := by cbv
  rw [hfree'] at hsecond
  have hsecond' : exec (discard (loadProject (some tiedFile) 0))
      (knotWith [freeRegistered, tiedRead] d, knotSession knot log₂) =
        (.ok (), (knotWith [freeRead, tiedRead] d, knotSession knot log₄)) := by
    change exec ((fun _ => ()) <$> loadProject (some tiedFile) 0) _ = _
    rw [exec_map, hsecond]
    rfl
  have hlinks (S : Session) : exec (([0, 1] : List ℕ).forM link >>= fun _ =>
      step fun w => ({ w with configured := true }, [])) (knotWith [freeRead, tiedRead] d, S) =
        (.ok (), (knotConfigured d, { S with log := S.log ++ [] })) := by cbv
  have hroot :
      ((knotWith [freeRegistered, tiedRegistered] d).position? Address.root).getD 0 = 1 := by
    cbv
  rw [readAndLink, exec_bind, exec_here]
  dsimp only
  rw [hroot, exec_bind, hfirst]
  dsimp only
  refine ⟨log₄ ++ [], Eq.trans ?_ (hlinks (knotSession knot log₄))⟩
  change exec ((discard (loadProject (some tiedFile) 0) >>= fun _ => pure ()) >>= fun _ =>
    (([0, 1] : List ℕ).forM link >>= fun _ =>
      step fun w => ({ w with configured := true }, []))) _ = _
  exact exec_bind_ok (exec_bind_ok hsecond' fun _ => pure ()) _

theorem modules_knot :
    (found (knotWith [freeRegistered] none) (knotSession knot [])).modules = [] := by
  have hvisits : (knotWith [] none).rules.visits (knot.tree (knotWith [] none).root) =
      [⟨[], .ok [⟨"water.yaml", false⟩]⟩] := by cbv
  have hfinds : (knotWith [] none).rules.finds ⟨[], .ok [⟨"water.yaml", false⟩]⟩ = false := by cbv
  change (knotWith [] none).rules.modulesOf (knot.tree (knotWith [] none).root) []
    ((knotWith [] none).rules.visits (knot.tree (knotWith [] none).root)) = _
  rw [hvisits]
  simp [WalkRules.modulesOf, hfinds]

/-- What the walk has found when the workspace is configured. -/
def knotFound : Discovery := found (knotWith [freeRegistered] none) (knotSession knot [])

theorem afterRegistration_knot :
    (knotWith [freeRegistered] none).afterRegistration (knotSession knot []) =
      knotWith [freeRegistered, tiedRegistered] (some knotFound) := by
  have hroot : ((knotWith [freeRegistered] none).register Address.root
      (some (knotWith [freeRegistered] none).root)).1 =
        knotWith [freeRegistered, tiedRegistered] none := by cbv
  have hfound : found (knotWith [freeRegistered, tiedRegistered] none) (knotSession knot []) =
      knotFound := found_congr rfl rfl rfl
  rw [afterRegistration, hroot, hfound, show knotFound.modules = [] from modules_knot]
  rfl

theorem reached_knot : (knotConfigured (some knotFound)).Reached := by
  have hcreate : exec (create ⟨.root, ["w"]⟩ (some knotSettings) false) (knotSession knot []) =
      (.ok (knotWith [] none), knotSession knot []) := by cbv
  have hregister : ((knotWith [] none).register "x" (some ⟨.root, ["x"]⟩)).1 =
      knotWith [freeRegistered] none := by cbv
  have hregistered : (knotWith [freeRegistered] none).Reached :=
    hregister ▸ (Reached.created hcreate).registered "x" (some ⟨.root, ["x"]⟩)
  obtain ⟨log, hexec⟩ :=
    exec_configure (w := knotWith [freeRegistered] none) rfl (knotSession knot [])
  obtain ⟨log', hread⟩ := exec_readAndLink_knot (some knotFound) log
  rw [afterRegistration_knot] at hexec
  exact hregistered.configured (hexec.trans hread)

/-- Here the temporary file is a link to the first output. -/
def linkedTemporary (m x : ByteArray) : FileStore :=
  knotOf [(["x", "b"], .directory), (["x", "b", "d"], .directory), (["w", ".water"], .directory),
    (["w", ".water", "c.tmp"], .link "../../x/b/d/x-unspecified.water.json")] m x

def temporaryWritten (m x b : ByteArray) : FileStore :=
  (linkedTemporary m x).put freeOutput.parts (.file b)

def temporarySaved (m x b : ByteArray) : FileStore :=
  ((temporaryWritten m x b).drop ["w", ".water", "c.tmp"]).put knotCache.parts
    (.link "../../x/b/d/x-unspecified.water.json")

/-- Here the cache file is a link to a directory, and the first output leads through it. -/
def linkedCache (m x : ByteArray) : FileStore :=
  knotOf [(["t"], .directory), (["t", "d"], .directory), (["x", "b"], .link "../w/.water/c"),
    (["w", ".water"], .directory), (["w", ".water", "c"], .link "../../t")] m x

def cacheWritten (m x b : ByteArray) : FileStore :=
  (linkedCache m x).put ["t", "d", "x-unspecified.water.json"] (.file b)

def cacheTemporary (m x b t : ByteArray) : FileStore :=
  (cacheWritten m x b).put ["w", ".water", "c.tmp"] (.file t)

def cacheSaved (m x b t : ByteArray) : FileStore :=
  (cacheWritten m x b).put knotCache.parts (.file t)

def linkedTemporaryCourse (m x : ByteArray) : Course (linkedTemporary m x) freeOutput knotCache where
  homed := isReal_nil _
  unknown := by cbv
  dirs := linkedTemporary m x
  made := by cbv
  files := temporaryWritten m x
  wrote b := by cbv
  dirs' := temporaryWritten m x
  made' b := by cbv
  written _ := temporaryWritten m x
  wrote' b t := by cbv
  moved _ := temporarySaved m x
  replaced b t := by cbv

def linkedCacheCourse (m x : ByteArray) : Course (linkedCache m x) freeOutput knotCache where
  homed := isReal_nil _
  unknown := by cbv
  dirs := linkedCache m x
  made := by cbv
  files := cacheWritten m x
  wrote b := by cbv
  dirs' := cacheWritten m x
  made' b := by cbv
  written := cacheTemporary m x
  wrote' b t := by cbv
  moved := cacheSaved m x
  replaced b t := by cbv

theorem cache_ne_document (s : CacheState) (d : Document) (masked : Bool) :
    s.toJson.toText .ascii ≠ d.text masked := by
  intro h
  have hprint : s.toJson.print .ascii = (d.toJson masked).print .unicode := by
    have hlist := congrArg String.toList h
    simpa [Json.toText, Document.text] using hlist
  have hkeys : ((s.toJson.print .ascii).drop 5).head? = some 'v' ∧
      (((d.toJson masked).print .unicode).drop 5).head? = some 's' := by
    constructor <;> rfl
  rw [hprint] at hkeys
  simp [hkeys.2] at hkeys

theorem cache_ne_textOf {w : Workspace} {p : Project} {text : String} (s : CacheState)
    (h : w.textOf p = .ok text) : (s.toJson.toText .ascii).toUTF8 ≠ text.toUTF8 := by
  rw [textOf] at h
  cases hresolve : (Resolver.resolve w.registry [] (w.positionOf p)).outcome with
  | error labels =>
    rw [hresolve] at h
    cases h
  | ok pins =>
    rw [hresolve] at h
    cases h
    exact fun heq => cache_ne_document s _ false (String.toByteArray_inj.mp heq)

/-- The first document is lost if its file holds it only where it is the text of the cache. -/
theorem Course.lost {F : FileStore} (course : Course F freeOutput knotCache)
    (hlost : ∀ b t, (course.moved b t).readBytes freeOutput = .ok b → t = b)
    (d : Option Discovery) : ∃ text w' S', (knotConfigured d).textOf freeRead = .ok text ∧
      exec (finalize false) (knotConfigured d, knotSession F []) =
        (.error (.inheritanceCycle [":", ":"]), (w', S')) ∧
      S'.files.readBytes freeOutput ≠ .ok text.toUTF8 := by
  obtain ⟨text, s, w', S', htext, hexec, hfiles⟩ := course.exec_finalize_knot d
  refine ⟨text, w', S', htext, hexec, fun hread => ?_⟩
  rw [hfiles] at hread
  exact cache_ne_textOf s htext (hlost _ _ hread)

/-- The module files and the files with settings. -/
def knotInputs : List Path :=
  [⟨.root, ["x", "water.yaml"]⟩, ⟨.root, ["w", "water.yaml"]⟩, Settings.overridePath ⟨.root, ["w"]⟩,
    Settings.defaultsPath ⟨.root, []⟩]

theorem knotInputs_eq : knotInputs = [⟨.root, ["x", "water.yaml"]⟩, ⟨.root, ["w", "water.yaml"]⟩,
    ⟨.root, ["w", ".water", "config.yaml"]⟩, ⟨.root, ["config", "default.yaml"]⟩] := by
  cbv

theorem apart_linkedTemporary (m x : ByteArray) :
    (knotOutputs ++ knotCache :: knotInputs).Pairwise (Apart (linkedTemporary m x)) := by
  have hoff : ∀ p ∈ knotOutputs ++ knotCache :: knotInputs, p.anchor = .root ∧ ".." ∉ p.parts ∧
      ¬ ["w", ".water", "c.tmp"] <+: p.parts := by
    rw [knotInputs_eq]
    decide
  have hreal : ∀ p ∈ knotOutputs ++ knotCache :: knotInputs,
      (linkedTemporary m x).realPath p = .ok p := by
    intro p hp
    obtain ⟨hanchor, hproper, hlink⟩ := hoff p hp
    exact realPath_knotOf m x ⟨hanchor, hproper, by simp [hlink]⟩
  have hnames : (knotOutputs ++ knotCache :: knotInputs).Pairwise
      fun p q => p.toString ≠ q.toString := by
    rw [knotInputs_eq]
    decide
  exact pairwise_apart hreal hnames

/-- Where these paths lead if the cache file is a link. -/
def linkedCacheReal (p : Path) : Path :=
  if p = freeOutput then ⟨.root, ["t", "d", "x-unspecified.water.json"]⟩
  else if p = knotCache then ⟨.root, ["t"]⟩
  else p

theorem apart_linkedCache (m x : ByteArray) :
    (knotOutputs ++ knotCache :: knotInputs).Pairwise (Apart (linkedCache m x)) := by
  have hhome : Homed (linkedCache m x) := isReal_nil _
  have hoff : ∀ p ∈ knotOutputs ++ knotCache :: knotInputs, p ≠ freeOutput → p ≠ knotCache →
      p.anchor = .root ∧ ".." ∉ p.parts ∧
        ¬ ["x", "b"] <+: p.parts ∧ ¬ ["w", ".water", "c"] <+: p.parts := by
    rw [knotInputs_eq]
    decide
  have hreal : ∀ p ∈ knotOutputs ++ knotCache :: knotInputs,
      (linkedCache m x).realPath p = .ok (linkedCacheReal p) := by
    intro p hp
    by_cases hfree : p = freeOutput
    · rw [linkedCacheReal, if_pos hfree, hfree]
      exact (realPath_of_locate hhome (by cbv)).1
    · by_cases hcache : p = knotCache
      · rw [linkedCacheReal, if_neg hfree, if_pos hcache, hcache]
        exact (realPath_of_locate hhome (by cbv)).1
      · obtain ⟨hanchor, hproper, hlink⟩ := hoff p hp hfree hcache
        rw [linkedCacheReal, if_neg hfree, if_neg hcache]
        exact realPath_knotOf m x ⟨hanchor, hproper, by simp [hlink]⟩
  have hnames : (knotOutputs ++ knotCache :: knotInputs).Pairwise
      fun p q => (linkedCacheReal p).toString ≠ (linkedCacheReal q).toString := by
    rw [knotInputs_eq]
    decide
  exact pairwise_apart hreal hnames

/-- The first document is published, and yet its file does not hold what rendering shows, though no
file operation fails and nothing has been known of files. -/
def LosesDocument (F : FileStore) : Prop :=
  ∃ st text,
    (knotConfigured (some knotFound)).Reached ∧
    (knotConfigured (some knotFound)).published = [freeRead, tiedLinked] ∧
    [freeRead, tiedLinked].map (knotConfigured (some knotFound)).outputOf = knotOutputs ∧
    (knotOutputs ++ knotCache :: knotInputs).Pairwise (Apart F) ∧
    (knotConfigured (some knotFound)).cache = Cache.opened (some knotCache) ∧
    Cache.stored Stamp.epoch F (some knotCache) = .ok .empty ∧
    (knotConfigured (some knotFound)).CycleFree freeRead ∧
    ¬ (knotConfigured (some knotFound)).CycleFree tiedLinked ∧
    exec (finalize false) (knotConfigured (some knotFound), knotSession F []) =
        (.error (.inheritanceCycle [":", ":"]), st) ∧
    (∀ S, (exec (render freeRead.address false) (knotConfigured (some knotFound), S)).1 =
      .ok text) ∧
    st.2.files.readBytes freeOutput ≠ .ok text.toUTF8

end Workspace

end ModulePins
