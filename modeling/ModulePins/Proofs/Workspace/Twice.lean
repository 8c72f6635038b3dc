import ModulePins.Proofs.Workspace.Finalize
import ModulePins.Proofs.Workspace.FirstRun

/-!
# The second run

A workspace that has been published is created, configured and published anew. The files that the
first run has added are beside what is read, so the second run finds the same modules, and they say
the same. Then it has nothing to do: the cache vouches for all documents, and no file is written, the
cache file included. By force it writes the documents again, over themselves.

That links do no harm cannot be left out, as a workspace with one module shows: where its output is a
link, the document can come to lie where the second run looks for module files.

## Main results

* `Workspace.finalize_twice` — the second run
* `Workspace.exec_configure_alone` — configuring a workspace with one module
-/

namespace ModulePins

namespace Workspace

open ModulePins.Task FileStore Emission

variable {w w₀ w' : Workspace} {S S' S₀ S₁ S₂ S₃ T : Session} {p : Project} {files files' : FileStore}
  {directory : Path} {settings? : Option Settings} {force : Bool} {es : List Emission}

/-! ### What is read again -/

theorem filePath_eq (hstandard : w.settings = .standard) (p : Project) :
    w.filePath p = p.directory / "water.yaml" := by
  rw [filePath, hstandard]
  rfl

section Reads

variable (h : w.Beginning files) (hadds : Adds w.writes ["build", "water", ".water"] files files')

include h hadds

theorem Beginning.kind?_filePath (hp : p ∈ w.projects) :
    files'.kind? (w.filePath p) = files.kind? (w.filePath p) := by
  have hmem : w.filePath p ∈ w.reads :=
    List.mem_cons_of_mem _ (List.mem_cons_of_mem _ (List.mem_map_of_mem hp))
  have hapart := h.harmless.reads _ hmem
  have hlink := h.harmless.unbroken _ hmem
  rw [filePath_eq h.standard] at hapart hlink ⊢
  exact hadds.kind?_below h.wellFormed.homed (by decide) (by decide) (by decide)
    (h.housed.directories p hp) hapart hlink

theorem Beginning.kind?_overridePath (hmade : files'.isDir? (Settings.stateDir w.root) = .ok true) :
    files'.kind? (Settings.overridePath w.root) = files.kind? (Settings.overridePath w.root) := by
  have habove : Settings.stateDir w.root ∈ w.reads := List.mem_cons_self
  have hmem : Settings.overridePath w.root ∈ w.reads := List.mem_cons_of_mem _ List.mem_cons_self
  exact hadds.kind?_below_made h.wellFormed (by decide) (by decide) (by decide) (by decide) (by decide)
    h.housed.root hmade (h.harmless.reads _ habove) (h.harmless.reads _ hmem)
    (h.harmless.unbroken _ habove) (h.harmless.unbroken _ hmem)

end Reads

/-! ### Publishing again -/

/-- The documents of all modules are reported in their order, with this status. -/
def Reports (w : Workspace) (status : EmissionStatus) (es : List Emission) : Prop :=
  List.Forall₂ (fun p e => ∃ d, w.textOf p = .ok d ∧
    e = outcome status d (w.outputOf p) p.coordinate) w.published es

/-- Publishing where all documents are published leaves everything alone. -/
theorem finalize_published (hconsistent : w.Consistent) (hconfigured : w.configured = true)
    (hhome : Homed S.files) (hunchanged : w.cache.changed = false)
    (hpublished : ∀ p ∈ w.published, ∃ d, w.textOf p = .ok d ∧ Published d (w.outputOf p) w.cache S) :
    ∃ es w' S', exec (finalize false) (w, S) = (.ok es, (w', S')) ∧
      w.Reports .upToDate es ∧ S'.files = S.files := by
  obtain ⟨r, c, S₁, hchain, hexec⟩ := hconsistent.exec_finalize hconfigured false S
  obtain ⟨⟨es, rfl, hall⟩, hfiles, hclean⟩ := hchain.upToDate hhome fun j hj => by
    obtain ⟨p, hp, rfl⟩ := List.mem_map.mp hj
    exact hpublished p hp
  obtain ⟨log, hsave⟩ := Cache.exec_save_unchanged (hclean hunchanged) S₁
  rw [hsave] at hexec
  exact ⟨es, _, _, hexec, List.forall₂_map_left_iff.mp hall, hfiles⟩

/-- Publishing by force where all documents are there writes them over themselves. -/
theorem finalize_there (hconsistent : w.Consistent) (hconfigured : w.configured = true)
    (hdistinct : S.files.Distinct) (hhome : Homed S.files) (hsolid : Solid S.files S.files.current)
    (hthere : ∀ p ∈ w.published, (w.jobOf p).There S.files)
    (hknown : ∃ s, Cache.known w.cache S = .ok s)
    (hcache : ∀ path ∈ w.cache.path, Cache.Replaceable S.files path)
    (hdirect : ∀ o ∈ w.cache.places, ¬ EndsInLink S.files o)
    (hplaces : ∀ p ∈ w.published, ∀ o ∈ w.cache.places, Apart S.files (w.outputOf p) o) :
    ∃ es w' S', exec (finalize true) (w, S) = (.ok es, (w', S')) ∧
      w.Reports .written es ∧
      ∀ p ∈ w.published, S'.files.readBytes (w.outputOf p) = S.files.readBytes (w.outputOf p) := by
  obtain ⟨r, c, S₁, hchain, hexec⟩ := hconsistent.exec_finalize hconfigured true S
  obtain ⟨-, hpath, hsound⟩ := (hchain.series hhome).frame hhome
  obtain ⟨⟨es, rfl, hall⟩, hfiles⟩ := hchain.rewritten hdistinct hhome hsolid (fun j hj => by
    obtain ⟨p, hp, rfl⟩ := List.mem_map.mp hj
    exact hthere p hp) hknown
  have hsame : c.places = w.cache.places := by rw [Cache.places, Cache.places, hpath]
  rw [← hpath, ← hfiles] at hcache
  rw [← hsame, ← hfiles] at hdirect
  obtain ⟨st, hsave⟩ := Cache.Replaceable.exec_save (c := c) (hfiles ▸ hhome) hcache
  obtain ⟨r, c', files, log, hsave', htouches, -⟩ := Cache.exec_save_touches (c := c) (hfiles ▸ hhome)
    (fun path hp => by
      simpa [Cache.places, Option.mem_def.mp hp] using hdirect)
    (hsound hconsistent.sound)
  rw [hsave] at hsave'
  cases hsave'
  rw [hsave] at hexec
  refine ⟨es, _, _, hexec, List.forall₂_map_left_iff.mp hall, fun p hp => ?_⟩
  obtain ⟨d, -, hholds⟩ := (hthere p hp).holds
  rw [hfiles, hsame] at htouches
  exact (readBytes_of_apart hhome htouches (fun o ho => (hplaces p hp o ho).symm) hholds).trans
    hholds.symm

/-- Without documents nothing is published. -/
theorem finalize_nil (hconsistent : w.Consistent) (hconfigured : w.configured = true)
    (hunchanged : w.cache.changed = false) (hnil : w.published = []) (force : Bool) (S : Session) :
    ∃ w' S', exec (finalize force) (w, S) = (.ok [], (w', S')) ∧ S'.files = S.files := by
  obtain ⟨r, c, S₁, hchain, hexec⟩ := hconsistent.exec_finalize hconfigured force S
  rw [jobs, hnil, List.map_nil] at hchain
  obtain ⟨rfl, rfl, hfiles⟩ := hchain.eq_of_nil
  obtain ⟨log, hsave⟩ := Cache.exec_save_unchanged hunchanged S₁
  rw [hsave] at hexec
  exact ⟨_, _, hexec, hfiles⟩

/-- **Publishing again** behind the first run, without force and by force. -/
theorem Beginning.finalize_again (h : w.Beginning files) (hfinished : w.Finished files S.files)
    (hne : w.published ≠ []) :
    (∃ es w' S', exec (finalize false) (w, S) = (.ok es, (w', S')) ∧ w.Reports .upToDate es ∧
      S'.files = S.files) ∧
    ∃ es w' S', exec (finalize true) (w, S) = (.ok es, (w', S')) ∧ w.Reports .written es ∧
      ∀ p ∈ w.published, S'.files.readBytes (w.outputOf p) = S.files.readBytes (w.outputOf p) := by
  have hadds := hfinished.adds
  have hlinks := hadds.toSameLinks
  have hhome := h.wellFormed.homed.mono hlinks
  have hpublished : ∀ p ∈ w.published,
      ∃ d, w.textOf p = .ok d ∧ Published d (w.outputOf p) w.cache S := fun p hp =>
    (hfinished.published p hp).imp fun d hd => ⟨hd.1, hd.2 S rfl⟩
  refine ⟨finalize_published h.consistent h.configured hhome (by rw [h.cache]; rfl) hpublished,
    finalize_there h.consistent h.configured (hadds.grows.distinct h.wellFormed.distinct) hhome
      (hlinks.current ▸ (h.wellFormed.solid h.wellFormed.home).mono hlinks.toKeeps) (fun p hp => ?_) ?_
      (fun path hpath => ?_) (fun o ho => mt hlinks.endsInLink (h.harmless.direct o ho))
      fun p hp o ho => (h.harmless.places p hp o ho).mono hlinks⟩
  · obtain ⟨d, hd, hhere⟩ := hpublished p hp
    have hname := h.isName_fileName hp
    have houtput := outputOf_eq h.standard p
    refine ⟨?_, ?_, d, hd, hhere.holds⟩
    · simp [jobOf, houtput, hname]
    · simpa [jobOf, houtput, hname] using hname.ne_up
  · obtain ⟨p, hp⟩ := List.exists_mem_of_ne_nil _ hne
    obtain ⟨d, -, hhere⟩ := hpublished p hp
    obtain ⟨s, q, hs, -⟩ := hhere.noted
    exact ⟨s, hs⟩
  · rw [h.cache] at hpath
    cases hpath
    exact hfinished.replaceable

/-! ### The second run -/

/-- What has been found does not matter for publishing. -/
theorem Beginning.discovered (h : w.Beginning files) (discovery : Option Discovery) :
    ({ w with discovery } : Workspace).Beginning files :=
  ⟨⟨h.consistent.nodup, h.consistent.normal, h.consistent.sound⟩, h.configured, h.standard, h.cache,
    h.wellFormed, h.blank, ⟨h.housed.root, h.housed.directories⟩, h.named, h.apart,
    ⟨h.harmless.places, h.harmless.direct, h.harmless.reads, h.harmless.marks, h.harmless.unbroken⟩⟩

theorem Finished.discovered (h : w.Finished files files') (discovery : Option Discovery) :
    ({ w with discovery } : Workspace).Finished files files' :=
  ⟨h.adds, h.replaceable, h.published⟩

/-- The second run finds the same modules. -/
theorem Beginning.found_again (h : w.Beginning S.files) (hfinished : w.Finished S.files T.files)
    (hsettings : w.settings = w₀.settings) : (found w₀ T).modules = (found w₀ S).modules := by
  have hname : w₀.rules.moduleFile = w.settings.moduleFile.val := by
    rw [hsettings]
    rfl
  have hmodules : (w₀.rules.walk (T.files.tree w₀.root)).1.modules =
      (w₀.rules.walk (S.files.tree w₀.root)).1.modules :=
    hfinished.adds.modules_eq h.wellFormed (by rw [hname]; exact h.harmless.marks)
  exact hmodules

/-- Configuring where the workspace directory holds the only module, which inherits nothing. -/
theorem exec_configure_alone {path : Path} {file : ModuleFile} (hfresh : w₀.Fresh)
    (hregistered : w₀.afterRegistration S = w) (hprojects : w.projects = [p])
    (hpath : w.filePath p = path) (hcontents : ModuleFile.contents S.files path = .ok file)
    (hfault : (file.apply p.descriptor).fault = none) (hreferences : file.references = []) :
    ∃ log, exec configure (w₀, S) = (.ok (), ({ w with
      projects := [p.loaded path file (some file)], configured := true }, { S with log })) := by
  have hregistered' : w.Fresh := hregistered ▸ hfresh.afterRegistration S
  have hroot : Address.root ∈ w.addresses := hregistered ▸ root_mem_afterRegistration w₀ S
  have hanswer : (p.reading (w.filePath p) S.files none).answer = .ok (some file) :=
    hpath ▸ Project.answer_of_contents hcontents hfault
  have hfile : w.fileOf S.files p = some file := (Project.reading_of_answer hanswer).1.symm
  have hfind : w.find? Address.root = some p := by
    rw [addresses, hprojects, List.map_singleton, List.mem_singleton] at hroot
    rw [hroot]
    exact hregistered'.consistent.find?_eq (by rw [hprojects]; exact List.mem_cons_self)
  have hrootFile : w.rootFile S.files = some file := by
    rw [rootFile, moduleAt, hfind, Option.bind_some, hfile]
  have hread : w.readProject S.files p = p.loaded path file (some file) := by
    rw [readProject_eq (hanswer.trans (by rw [hfile])), hrootFile, hfile, hpath]
    rfl
  have hreferred : (w.readProject S.files p).references = [] := by
    rw [hread, Project.loaded, hreferences]
  have hsettled : w.settled S.files p = p.loaded path file (some file) := by
    rw [settled, linked, hreferred, targets, List.takeWhile_nil, List.filterMap_nil,
      Project.refer_nil, hread]
  have hlegible : w.Legible S.files := by
    refine ⟨fun q hq => ?_, fun q hq r hr => ?_⟩ <;>
      obtain rfl := List.mem_singleton.mp (hprojects ▸ hq)
    · exact hanswer.trans (by rw [hfile])
    · rw [hreferred] at hr
      cases hr
  subst hregistered
  obtain ⟨log, hdone⟩ := exec_configure_of_legible hfresh.consistent hfresh.unconfigured hlegible
  refine ⟨log, hdone.trans ?_⟩
  rw [whole, hprojects, List.map_singleton, hsettled]

def aloneBytes : ByteArray := "waterDescriptor:\n  moduleId: m\n".toUTF8

def aloneFile : ModuleFile := ⟨none, none, none, some ⟨some "m", none, none, [], [], [], []⟩⟩

/-- A workspace directory with a module file, and perhaps more. -/
def aloneWith (more : List (Location × FileNode)) : FileStore where
  nodes := [(["w"], .directory), (["w", "water.yaml"], .file aloneBytes)] ++ more
  current := []

def aloneCache : Path := ⟨.root, ["w", ".water", "descriptor-cache.json"]⟩

def aloneOutput : Path := ⟨.root, ["w", "build", "water", "w-unspecified.water.json"]⟩

def aloneCreated : Workspace :=
  ⟨⟨.root, ["w"]⟩, .standard, .opened (some aloneCache), [], none, false⟩

def aloneRegistered : Project :=
  { address := "", directory := ⟨.root, ["w"]⟩, descriptor := { name := ":" } }

def aloneRead : Project :=
  { aloneRegistered with
    descriptor := { name := ":", moduleId := some "m" }
    artifactId := "w"
    file := some ⟨.root, ["w", "water.yaml"]⟩ }

/-- The workspace when it has been configured. -/
def aloneConfigured (d : Option Discovery) : Workspace :=
  { aloneCreated with projects := [aloneRead], discovery := d, configured := true }

def aloneText : String := "waterDescriptor:\n  moduleId: m\n"

def aloneMembers : Schema.Members :=
  [(.str "waterDescriptor", .mapping [(.str "moduleId", .str "m")])]

/-- What the module file says. -/
theorem read_alone : Yaml.read aloneText.toList = .ok (.mapping aloneMembers) := by
  have hreadable : aloneText.toList.all Yaml.isReadable = true := by cbv
  have htokens : Yaml.tokens aloneText.toList =
      [.blockMappingStart, .key, .scalar "waterDescriptor" true, .value, .blockMappingStart, .key,
        .scalar "moduleId" true, .value, .scalar "m" true, .blockEnd, .blockEnd] := by cbv
  rw [Yaml.read, Yaml.node?, hreadable, htokens]
  cbv

/-- The two stores that the workspace is published in: one without links, and one in which the
output is a link to what would be the module file of a directory in the workspace. -/
def alone : FileStore := aloneWith []

def aloneLinked : FileStore :=
  aloneWith [(["w", "x"], .directory), (["w", "build"], .directory),
    (["w", "build", "water"], .directory),
    (aloneOutput.parts, .link "../../x/water.yaml")]

theorem contents_aloneWith {F : FileStore}
    (hread : F.readBytes ⟨.root, ["w", "water.yaml"]⟩ = .ok aloneBytes) :
    ModuleFile.contents F ⟨.root, ["w", "water.yaml"]⟩ = .ok aloneFile := by
  have hbytes : F.readBytes ⟨.root, ["w", "water.yaml"]⟩ = .ok aloneText.toUTF8 := hread
  exact ModuleFile.contents_of_text hbytes (by cbv) read_alone (by cbv)

theorem outputOf_alone (d : Option Discovery) :
    (aloneConfigured d).outputOf aloneRead = aloneOutput := by
  cbv

theorem cycleFree_alone (d : Option Discovery) : (aloneConfigured d).CycleFree aloneRead := by
  have hposition : (aloneConfigured d).positionOf aloneRead = 0 := by cbv
  have hregistry : (aloneConfigured d).registry = [aloneRead.descriptor] := rfl
  rw [CycleFree, hposition, hregistry]
  exact Registry.cycleFree_of_descending (n := 1) (by decide) 0 (by decide)

/-- Publishing the module, where all file operations succeed. -/
theorem Course.exec_finalize_alone {F : FileStore} (course : Course F aloneOutput aloneCache)
    (d : Option Discovery) (log : List Record) :
    ∃ es b t w' log', exec (finalize false) (aloneConfigured d, knotSession F log) =
      (.ok es, (w', knotSession (course.moved b t) log')) := by
  obtain ⟨text, htext⟩ := textOf_of_cycleFree (cycleFree_alone d)
  have hposition : (aloneConfigured d).positionOf aloneRead = 0 := by cbv
  obtain ⟨memo, log₁, hmemo, hfirst⟩ := exec_emitFrom_cons (w := aloneConfigured d) rfl hposition
    (Memo.sound_nil _) htext false [] (knotSession F log)
  obtain ⟨s, log₂, hcaching⟩ := course.exec_caching_emit (w := aloneConfigured d) rfl
    (outputOf_alone d) text log₁
  obtain ⟨log₃, hsave⟩ := course.exec_caching_save (aloneConfigured d) text.toUTF8 s log₂
  have hemits : exec (emitFrom false [] 0 (aloneConfigured d).projects)
      (aloneConfigured d, knotSession F log) =
        (.ok [outcome .written text aloneOutput aloneRead.coordinate],
          ({ aloneConfigured d with cache := ⟨some aloneCache, some s, true⟩ },
            knotSession (course.files text.toUTF8) log₂)) :=
    hfirst.trans (exec_bind_ok hcaching _)
  refine ⟨[outcome .written text aloneOutput aloneRead.coordinate], text.toUTF8,
    (s.toJson.toText .ascii).toUTF8,
    { aloneConfigured d with cache := ⟨some aloneCache, some s, false⟩ }, log₃, ?_⟩
  rw [exec_finalize_of_configured rfl, exec_ensuring, hemits]
  dsimp only
  rw [hsave]
  rfl

/-! The stores while the document and then the cache are written, first without links. -/

def aloneTemporary : Path := ⟨.root, ["w", ".water", "descriptor-cache.tmp"]⟩

theorem temporary_aloneCache : Cache.temporary aloneCache = aloneTemporary := by decide

def aloneWritten (b : ByteArray) (more : List (Location × FileNode)) : FileStore :=
  aloneWith ([(["w", "build"], .directory), (["w", "build", "water"], .directory),
    (aloneOutput.parts, .file b)] ++ more)

def aloneCourse : Course alone aloneOutput aloneCache where
  homed := isReal_nil _
  unknown := by cbv
  dirs := aloneWith [(["w", "build"], .directory), (["w", "build", "water"], .directory)]
  made := by cbv
  files b := aloneWritten b []
  wrote b := by cbv
  dirs' b := aloneWritten b [(["w", ".water"], .directory)]
  made' b := by cbv
  written b t := aloneWritten b [(["w", ".water"], .directory), (aloneTemporary.parts, .file t)]
  wrote' b t := by
    rw [temporary_aloneCache]
    cbv
  moved b t := aloneWritten b [(["w", ".water"], .directory), (aloneCache.parts, .file t)]
  replaced b t := by
    rw [temporary_aloneCache]
    simp +decide [replace, locate, locateFrom, start, node?, drop, put, aloneWritten, aloneWith,
      aloneTemporary, aloneCache, aloneOutput, bind, Except.bind, Except.mapError, pure, Except.pure]

/-! Where the output is a link, the document becomes a module file. -/

def linkedWritten (b : ByteArray) (more : List (Location × FileNode)) : FileStore :=
  aloneWith ([(["w", "x"], .directory), (["w", "build"], .directory),
    (["w", "build", "water"], .directory), (aloneOutput.parts, .link "../../x/water.yaml"),
    (["w", "x", "water.yaml"], .file b)] ++ more)

def linkedCourse : Course aloneLinked aloneOutput aloneCache where
  homed := isReal_nil _
  unknown := by cbv
  dirs := aloneLinked
  made := by cbv
  files b := linkedWritten b []
  wrote b := by cbv
  dirs' b := linkedWritten b [(["w", ".water"], .directory)]
  made' b := by cbv
  written b t := linkedWritten b [(["w", ".water"], .directory), (aloneTemporary.parts, .file t)]
  wrote' b t := by
    rw [temporary_aloneCache]
    cbv
  moved b t := linkedWritten b [(["w", ".water"], .directory), (aloneCache.parts, .file t)]
  replaced b t := by
    rw [temporary_aloneCache]
    simp +decide [replace, locate, locateFrom, start, node?, drop, put, linkedWritten, aloneWith,
      aloneTemporary, aloneCache, aloneOutput, bind, Except.bind, Except.mapError, pure, Except.pure]

/-- Creating the workspace, where nothing overrides the settings. -/
theorem exec_create_alone {F : FileStore} (hreal : F.realPath ⟨.root, ["w"]⟩ = .ok ⟨.root, ["w"]⟩)
    (hno : F.exists? ⟨.root, ["w", ".water", "config.yaml"]⟩ = .ok false) (log : List Record) :
    ∃ log', exec (create ⟨.root, ["w"]⟩ none false) (knotSession F log) =
      (.ok aloneCreated, knotSession F log') := by
  have hdefaults : (Settings.validate Settings.defaults none).toOption = some .standard := by cbv
  have hpath : Settings.overridePath ⟨.root, ["w"]⟩ = ⟨.root, ["w", ".water", "config.yaml"]⟩ := by
    cbv
  have hcache : cachePath ⟨.root, ["w"]⟩ .standard = aloneCache := by cbv
  have hcreated : created F ⟨.root, ["w"]⟩ none false = some aloneCreated := by
    refine created_eq_some_iff.mpr ⟨_, _, hreal, ?_, by rw [if_neg (by simp), hcache]; rfl⟩
    rw [Option.none_or, Settings.given, hpath, hno]
    exact hdefaults
  obtain ⟨r, log', hexec, hmade⟩ := exec_create ⟨.root, ["w"]⟩ none false (knotSession F log)
  rw [show (knotSession F log).files = F from rfl, hcreated, Except.toOption_eq_some_iff] at hmade
  exact ⟨log', hmade ▸ hexec⟩

theorem realPath_aloneWith (more : List (Location × FileNode)) :
    (aloneWith more).realPath ⟨.root, ["w"]⟩ = .ok ⟨.root, ["w"]⟩ := by
  have hreal : IsReal (aloneWith more) ["w"] := ⟨by decide, by simp [LinkFree, node?, aloneWith]⟩
  exact hreal.realPath

theorem exists?_override :
    alone.exists? ⟨.root, ["w", ".water", "config.yaml"]⟩ = .ok false ∧
    aloneLinked.exists? ⟨.root, ["w", ".water", "config.yaml"]⟩ = .ok false ∧
    ∀ b t, (linkedCourse.moved b t).exists? ⟨.root, ["w", ".water", "config.yaml"]⟩ = .ok false := by
  refine ⟨by cbv, by cbv, fun b t => ?_⟩
  simp +decide [exists?, kind?, locate, locateFrom, start, node?, linkedCourse, linkedWritten,
    aloneWith, aloneCache, aloneOutput, bind, Except.bind, Except.mapError, pure, Except.pure]

/-- The walk comes to the module file of the workspace directory, which is none of its business. -/
theorem modules_alone (log : List Record) :
    (found aloneCreated (knotSession alone log)).modules = [] ∧
      (found aloneCreated (knotSession aloneLinked log)).modules = [] := by
  have hvisits : aloneCreated.rules.visits (alone.tree aloneCreated.root) =
      [⟨[], .ok [⟨"water.yaml", false⟩]⟩] := by cbv
  have hlinked : aloneCreated.rules.visits (aloneLinked.tree aloneCreated.root) =
      [⟨[], .ok [⟨"water.yaml", false⟩, ⟨"build", true⟩, ⟨"x", true⟩]⟩, ⟨["x"], .ok []⟩] := by cbv
  have hfinds : aloneCreated.rules.finds ⟨[], .ok [⟨"water.yaml", false⟩]⟩ = false ∧
      aloneCreated.rules.finds
        ⟨[], .ok [⟨"water.yaml", false⟩, ⟨"build", true⟩, ⟨"x", true⟩]⟩ = false ∧
      aloneCreated.rules.finds ⟨["x"], .ok []⟩ = false := by
    refine ⟨?_, ?_, ?_⟩ <;> cbv
  constructor
  · change aloneCreated.rules.modulesOf (alone.tree aloneCreated.root) []
      (aloneCreated.rules.visits (alone.tree aloneCreated.root)) = _
    rw [hvisits]
    simp [WalkRules.modulesOf, hfinds]
  · change aloneCreated.rules.modulesOf (aloneLinked.tree aloneCreated.root) []
      (aloneCreated.rules.visits (aloneLinked.tree aloneCreated.root)) = _
    rw [hlinked]
    simp [WalkRules.modulesOf, hfinds]

/-- Configuring the workspace where the walk finds nothing. -/
theorem configured_alone {F : FileStore} (hfresh : aloneCreated.Fresh) (log : List Record)
    (hmodules : (found aloneCreated (knotSession F log)).modules = [])
    (hcontents : ModuleFile.contents F ⟨.root, ["w", "water.yaml"]⟩ = .ok aloneFile) :
    ∃ d log', exec configure (aloneCreated, knotSession F log) =
      (.ok (), (aloneConfigured d, knotSession F log')) := by
  have hroot : (aloneCreated.register Address.root (some aloneCreated.root)).1 =
      { aloneCreated with projects := [aloneRegistered] } := by cbv
  have hfound : found { aloneCreated with projects := [aloneRegistered] } (knotSession F log) =
      found aloneCreated (knotSession F log) := found_congr rfl rfl rfl
  have hregistered : aloneCreated.afterRegistration (knotSession F log) =
      { aloneCreated with
        projects := [aloneRegistered]
        discovery := some (found aloneCreated (knotSession F log)) } := by
    rw [afterRegistration, hroot, hfound, hmodules]
    rfl
  have hloaded : aloneRegistered.loaded ⟨.root, ["w", "water.yaml"]⟩ aloneFile (some aloneFile) =
      aloneRead := by cbv
  have hpath (d : Option Discovery) : filePath { aloneCreated with
      projects := [aloneRegistered], discovery := d } aloneRegistered =
        ⟨.root, ["w", "water.yaml"]⟩ := by cbv
  obtain ⟨log', hexec⟩ := exec_configure_alone hfresh hregistered rfl (hpath _) hcontents (by cbv) rfl
  rw [hloaded] at hexec
  exact ⟨_, log', hexec⟩

theorem wellFormed_alone : alone.WellFormed := by
  refine wellFormed_of_nodes (by simp [alone, aloneWith, Distinct]) (fun e he => ?_) rfl
  simp only [alone, aloneWith, List.append_nil, List.mem_cons, List.not_mem_nil, or_false] at he
  rcases he with rfl | rfl <;> exact ⟨rfl, by decide⟩

end Workspace

end ModulePins
