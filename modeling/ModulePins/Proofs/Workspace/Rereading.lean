import ModulePins.Proofs.FileStore.Directories
import ModulePins.Proofs.Secrets.Files
import ModulePins.Proofs.Settings.Overrides
import ModulePins.Proofs.Workspace.Modules
import ModulePins.Proofs.Workspace.SetUp

/-!
# Reading a workspace again

A workspace reads its settings and its module files, and it looks for modules. All that reading makes
of a file is decided by what the path of the file leads to, so a workspace that is created anew, when
other files have changed, has the same settings and the same modules, provided that the walk comes to
the same directories with a module file.

## Main definitions

* `Settings.given` — the settings that files give

## Main results

* `Settings.exec_load`, `Workspace.exec_create` — creating a workspace
* `Workspace.exec_configure_again` — configuring a workspace anew
-/

namespace ModulePins

open ModulePins.Task

section Contents

variable {files files' : FileStore} {p : Path} {stage : ReadingStage}

/-- **Reading a file** depends on what its path leads to. -/
theorem MappingFile.contents_of_kind? (h : files'.kind? p = files.kind? p) :
    contents stage files' p = contents stage files p := by
  by_cases hthere : ∃ n, files.kind? p = .ok (some n)
  · obtain ⟨n, hn⟩ := hthere
    exact contents_congr (FileStore.exists?_congr h) (FileStore.isDir?_congr h)
      (FileStore.readBytes_congr hn h)
  · rw [contents, contents, FileStore.exists?_congr h]
    cases hexists : files.exists? p with
    | error e => rfl
    | ok there =>
      cases there with
      | false => rfl
      | true => exact absurd (FileStore.exists?_eq_true_iff_kind?.mp hexists) hthere

theorem ModuleFile.contents_of_kind? (h : files'.kind? p = files.kind? p) :
    contents files' p = contents files p := by
  rw [contents, contents, FileStore.isFile?_congr h, MappingFile.contents_of_kind? h]

theorem Project.reading_of_kind? (h : files'.kind? p = files.kind? p) (project : Project)
    (defaults : Option ModuleFile) :
    project.reading p files' defaults = project.reading p files defaults := by
  have hnotes : ModuleFile.notes files' p = ModuleFile.notes files p := by
    rw [ModuleFile.notes, ModuleFile.notes, FileStore.isFile?_congr h,
      MappingFile.notes_congr (MappingFile.contents_of_kind? h)]
  rw [reading, reading, FileStore.isFile?_congr h, ModuleFile.contents_of_kind? h, hnotes]

end Contents

/-! ### Settings -/

namespace Settings

variable {files files' : FileStore} {root : Path}

theorem validate_toOption (es : Schema.Members) (path path' : Option String) :
    (validate es path).toOption = (validate es path').toOption := by
  rw [validate_eq, validate_eq]
  split <;> rfl

/-- The settings that files give a workspace. -/
def given (files : FileStore) (root : Path) : Option Settings :=
  match files.exists? (overridePath root) with
  | .error _ => none
  | .ok false => (validate defaults none).toOption
  | .ok true =>
    (MappingFile.contents .parsing files (overridePath root)).toOption.bind fun es =>
      if (section? es).isBlank then (validate defaults none).toOption
      else (override defaults (section? es)).toOption.bind fun merged =>
        (validate merged none).toOption

theorem given_congr (h : files'.kind? (overridePath root) = files.kind? (overridePath root)) :
    given files' root = given files root := by
  rw [given, given, FileStore.exists?_congr h, MappingFile.contents_of_kind? h]

theorem given_eq_outcome : given files root = (outcome files (overridePath root)).toOption := by
  rw [given, outcome, validate_defaults]
  cases files.exists? (overridePath root) with
  | error e => rfl
  | ok there =>
    cases there with
    | false => rfl
    | true =>
      dsimp only
      cases MappingFile.contents .parsing files (overridePath root) with
      | error f => rfl
      | ok es =>
        simp only [Except.toOption, Option.bind_some, Except.bind]
        split
        · rename_i hblank
          rw [ofSection_of_blank hblank]
        · rename_i hfilled
          cases hsection : section? es with
          | mapping changes => exact validate_toOption _ _ _
          | _ =>
            rw [hsection] at hfilled
            rw [ofSection_of_ne (by simp), if_neg hfilled]
            rfl

/-- **Reading the settings** adds to the log, and changes nothing. -/
theorem exec_load (root : Path) (S : Session) : ∃ r log,
    exec (load root) S = (r, { S with log }) ∧ r.toOption = given S.files root := by
  obtain ⟨log, hexec⟩ := exec_loadFrom (overridePath root) S
  exact ⟨_, log, hexec, given_eq_outcome.symm⟩

end Settings

namespace Workspace

variable {w w₀ : Workspace} {S S' S₁ T : Session} {directory root : Path} {settings? : Option Settings}
  {files files' : FileStore} {p : Project} {ms : List FoundModule}

/-- The workspace that is created over files, if one can be. -/
def created (files : FileStore) (directory : Path) (settings? : Option Settings)
    (inMemory : Bool) : Option Workspace :=
  (files.realPath directory).toOption.bind fun root =>
    (settings?.or (Settings.given files root)).map fun settings =>
      ⟨root, settings, .opened (if inMemory then none else some (cachePath root settings)), [], none,
        false⟩

/-- **Creating a workspace** adds to the log, and changes nothing. -/
theorem exec_create (directory : Path) (settings? : Option Settings) (inMemory : Bool)
    (S : Session) : ∃ r log, exec (create directory settings? inMemory) S = (r, { S with log }) ∧
      r.toOption = created S.files directory settings? inMemory := by
  rw [create, created, exec_bind]
  cases hreal : S.files.realPath directory with
  | error e =>
    obtain ⟨f, -, hexec⟩ := Session.exec_realPath_error hreal
    rw [hexec]
    exact ⟨_, S.log, rfl, rfl⟩
  | ok root =>
    rw [Session.exec_realPath_ok hreal]
    cases settings? with
    | some settings => exact ⟨_, S.log, rfl, rfl⟩
    | none =>
      obtain ⟨r, log, hexec, hgiven⟩ := Settings.exec_load root S
      dsimp only
      rw [exec_bind, hexec]
      simp only [Except.toOption, Option.bind_some, Option.none_or, ← hgiven]
      cases r <;> exact ⟨_, log, rfl, rfl⟩

/-! ### Modules -/

theorem registerAll_discovery (w : Workspace) (ms : List FoundModule)
    (discovery : Option Discovery) :
    ({ w with discovery }.registerAll ms).1 = { (w.registerAll ms).1 with discovery } := by
  induction ms generalizing w with
  | nil => rfl
  | cons m ms ih =>
    have hregister : ({ w with discovery }.register m.address (some m.directory)).1 =
        { (w.register m.address (some m.directory)).1 with discovery } := by
      have hfind : find? { w with discovery } (normalize { w with discovery } m.address) =
          w.find? (w.normalize m.address) := rfl
      rw [register, register]
      dsimp only
      rw [hfind]
      cases w.find? (w.normalize m.address) <;> rfl
    rw [registerAll, registerAll]
    dsimp only
    rw [hregister, ih]

/-- Reading the same module files makes the same of a workspace. -/
theorem whole_congr
    (h : ∀ p ∈ w.projects, files'.kind? (w.filePath p) = files.kind? (w.filePath p)) :
    (w.Legible files → w.Legible files') ∧ w.whole files' = w.whole files := by
  have hfile {p : Project} (hp : p ∈ w.projects) : w.fileOf files' p = w.fileOf files p := by
    rw [fileOf, fileOf, ModuleFile.at?, ModuleFile.at?, ModuleFile.contents_of_kind? (h p hp)]
  have hroot : w.rootFile files' = w.rootFile files := by
    rw [rootFile, rootFile, moduleAt, moduleAt]
    cases hfind : w.find? Address.root with
    | none => rfl
    | some p => exact hfile (List.mem_of_find?_eq_some hfind)
  have hread {p : Project} (hp : p ∈ w.projects) : w.readProject files' p = w.readProject files p := by
    rw [readProject, readProject, hroot, Project.reading_of_kind? (h p hp)]
  refine ⟨fun hlegible => ⟨fun p hp => ?_, fun p hp r hr => ?_⟩, ?_⟩
  · rw [Project.reading_of_kind? (h p hp), hfile hp]
    exact hlegible.read p hp
  · rw [hread hp] at hr
    exact hlegible.refer p hp r hr
  · rw [whole, whole]
    congr 1
    exact List.map_congr_left fun p hp => by rw [settled, settled, hread hp]

/-- Which modules are registered depends on what the walk finds, and on nothing else. -/
theorem afterRegistration_of_modules (hmodules : (found w₀ T).modules = (found w₀ S).modules) :
    w₀.afterRegistration T =
      { w₀.afterRegistration S with discovery := some (found w₀ T) } := by
  have hagain (S : Session) : found (w₀.register Address.root (some w₀.root)).1 S = found w₀ S := by
    obtain ⟨ps, hps⟩ := register_eq w₀ Address.root (some w₀.root)
    exact found_congr (by rw [hps]) (by rw [hps]) rfl
  have hregistered (S : Session) : w₀.afterRegistration S =
      { ((w₀.register Address.root (some w₀.root)).1.registerAll (found w₀ S).modules).1 with
        discovery := some (found w₀ S) } := by
    rw [afterRegistration, hagain]
    exact registerAll_discovery _ _ _
  rw [hregistered T, hregistered S, hmodules]

theorem discovery_afterRegistration (w : Workspace) (S : Session) :
    (w.afterRegistration S).discovery.map Discovery.modules = some (found w S).modules := by
  obtain ⟨ps, hps⟩ := register_eq w Address.root (some w.root)
  rw [afterRegistration, registerAll_discovery]
  exact congrArg (some ∘ Discovery.modules) (found_congr (by rw [hps]) (by rw [hps]) rfl)

/-- What configuring leaves alone. -/
theorem configure_keeps {r : Except Fault Unit} (hfresh : w₀.configured = false)
    (hdone : exec configure (w₀, S) = (r, (w, S'))) :
    w.root = w₀.root ∧ w.settings = w₀.settings ∧ w.cache = w₀.cache ∧ S'.files = S.files := by
  have hrest := undisturbed_configure hfresh hdone
  obtain ⟨ps, d, hps⟩ := afterRegistration_eq w₀ S
  rw [hps] at hrest
  exact ⟨hrest.root, hrest.settings, hrest.cache, hrest.files⟩

/-- **Configuring anew**, when the walk finds the same modules and their files are the same. -/
theorem exec_configure_again (hfresh : w₀.Fresh) (hdone : exec configure (w₀, S) = (.ok (), (w, S')))
    (hmodules : (found w₀ T).modules = (found w₀ S).modules)
    (hkind : ∀ p ∈ w.projects, T.files.kind? (w.filePath p) = S.files.kind? (w.filePath p)) :
    ∃ d log, exec configure (w₀, T) = (.ok (), ({ w with discovery := some d }, { T with log })) ∧
      w.discovery.map Discovery.modules = some d.modules := by
  obtain ⟨hlegible, rfl, -⟩ := legible_of_configure hfresh.consistent hfresh.unconfigured hdone
  have hagain := afterRegistration_of_modules hmodules
  have hkind' : ∀ p ∈ (w₀.afterRegistration T).projects,
      T.files.kind? ((w₀.afterRegistration T).filePath p) =
        S.files.kind? ((w₀.afterRegistration T).filePath p) := by
    intro p hp
    rw [hagain] at hp
    have hp' := hkind _ (List.mem_map_of_mem hp)
    rw [filePath_whole] at hp'
    rwa [hagain]
  obtain ⟨hlegible', hwhole⟩ := whole_congr hkind'
  obtain ⟨log, hdone'⟩ := exec_configure_of_legible hfresh.consistent hfresh.unconfigured
    (hlegible' (hagain ▸ ⟨hlegible.read, hlegible.refer⟩))
  refine ⟨found w₀ T, log, ?_, (discovery_afterRegistration w₀ S).trans (by rw [hmodules])⟩
  rw [hdone', hwhole, hagain]
  rfl

/-- What a workspace is when it has been created. -/
theorem created_eq_some_iff {inMemory : Bool} : created files directory settings? inMemory = some w ↔
    ∃ root settings, files.realPath directory = .ok root ∧
      settings?.or (Settings.given files root) = some settings ∧
      w = ⟨root, settings, .opened (if inMemory then none else some (cachePath root settings)), [],
        none, false⟩ := by
  rw [created, Option.bind_eq_some_iff]
  constructor
  · rintro ⟨root, hroot, hw⟩
    obtain ⟨settings, hsettings, rfl⟩ := Option.map_eq_some_iff.mp hw
    exact ⟨root, settings, Except.toOption_eq_some_iff.mp hroot, hsettings, rfl⟩
  · rintro ⟨root, settings, hroot, hsettings, rfl⟩
    exact ⟨root, Except.toOption_eq_some_iff.mpr hroot,
      Option.map_eq_some_iff.mpr ⟨settings, hsettings, rfl⟩⟩

/-- **Creating and configuring a workspace anew**, when all that it reads is the same. -/
theorem exec_anew {inMemory : Bool}
    (hcreated : exec (create directory settings? inMemory) S = (.ok w₀, S₁))
    (hdone : exec configure (w₀, S₁) = (.ok (), (w, S')))
    (hreal : T.files.realPath directory = .ok w₀.root)
    (hsettings : T.files.kind? (Settings.overridePath w.root) =
      S.files.kind? (Settings.overridePath w.root))
    (hmodules : (found w₀ T).modules = (found w₀ S).modules)
    (hkind : ∀ p ∈ w.projects, T.files.kind? (w.filePath p) = S.files.kind? (w.filePath p)) :
    ∃ T₁ T₂ d, exec (create directory settings? inMemory) T = (.ok w₀, T₁) ∧
      exec configure (w₀, T₁) = (.ok (), ({ w with discovery := some d }, T₂)) ∧
      T₂.files = T.files ∧ w.discovery.map Discovery.modules = some d.modules := by
  obtain ⟨r, log, hexec, hmade⟩ := exec_create directory settings? inMemory S
  rw [hcreated] at hexec
  cases hexec
  have hfresh : w₀.Fresh := (Prepared.created hcreated).fresh
  obtain ⟨hroot, -, -, -⟩ := configure_keeps hfresh.unconfigured hdone
  rw [hroot] at hsettings
  obtain ⟨root, settings, -, hgiven, rfl⟩ := created_eq_some_iff.mp hmade.symm
  obtain ⟨r', log', hexec', hmade'⟩ := exec_create directory settings? inMemory T
  have hsame : Settings.given T.files root = Settings.given S.files root :=
    Settings.given_congr hsettings
  rw [created_eq_some_iff.mpr ⟨root, settings, hreal, hsame ▸ hgiven, rfl⟩,
    Except.toOption_eq_some_iff] at hmade'
  subst hmade'
  obtain ⟨d, log₂, hagain, hd⟩ :=
    exec_configure_again (T := { T with log := log' }) hfresh hdone hmodules hkind
  exact ⟨_, _, d, hexec', hagain, rfl, hd⟩

end Workspace

end ModulePins
