import ModulePins.Proofs.Workspace.Loading

/-!
# Setting a workspace up

A workspace is created, modules may be registered, and then it is configured. What is known of its
modules when that has succeeded can be read off the files: each module is what its module file makes
of a module that has just been registered. `Workspace.SetUp` says so.

A workspace is to be configured once. One whose configuration has failed keeps what was declared up
to there.

## Main definitions

* `Workspace.Prepared` — a workspace before its configuration
* `Workspace.SetUp` — a workspace behind its configuration

## Main results

* `Workspace.Fresh.setUp` — configuring leads from the one to the other
-/

namespace ModulePins

namespace Workspace

open ModulePins.Task

variable {w v : Workspace} {S T : Session} {files : FileStore} {p : Project} {a : String}

/-! ### Before the configuration -/

/-- A workspace that has been created, and in which modules may have been registered. -/
inductive Prepared : Workspace → Prop
  | created {directory : Path} {settings : Option Settings} {inMemory : Bool} {S S' : Session}
      {w : Workspace} (h : exec (create directory settings inMemory) S = (.ok w, S')) : Prepared w
  | registered {w : Workspace} (before : Prepared w) (address : String) (directory : Option Path) :
      Prepared (w.register address directory).1

/-- A module that has just been registered. -/
def blank (w : Workspace) (address : String) (directory : Path) : Project :=
  { address, directory, descriptor := { name := w.label address } }

/-- All modules have just been registered. -/
structure Fresh (w : Workspace) : Prop where
  consistent : w.Consistent
  unconfigured : w.configured = false
  blank : ∀ p ∈ w.projects, p = w.blank p.address p.directory

theorem blank_congr {w' : Workspace} (hsettings : w'.settings = w.settings) : w'.blank = w.blank := by
  funext address directory
  rw [blank, blank, label, label, hsettings]

theorem blank_register (w : Workspace) (address : String) (directory : Option Path) :
    (w.register address directory).1.blank = w.blank := by
  obtain ⟨ps, hps⟩ := register_eq w address directory
  exact blank_congr (by rw [hps])

/-- A module that is registered was registered before, or it has just been registered. -/
theorem mem_projects_register {address : String} {directory : Option Path}
    (hp : p ∈ (w.register address directory).1.projects) :
    p ∈ w.projects ∨ p = w.blank p.address p.directory := by
  rw [register] at hp
  cases hfind : w.find? (w.normalize address) with
  | some q =>
    rw [hfind] at hp
    exact .inl hp
  | none =>
    rw [hfind] at hp
    rcases List.mem_append.mp hp with hp | hp
    · exact .inl hp
    · rw [List.mem_singleton.mp hp]
      exact .inr rfl

theorem mem_projects_registerAll {ms : List FoundModule} (hp : p ∈ (w.registerAll ms).1.projects) :
    p ∈ w.projects ∨ p = w.blank p.address p.directory := by
  induction ms generalizing w with
  | nil => exact .inl hp
  | cons m ms ih =>
    rcases ih hp with hp | hp
    · exact mem_projects_register hp
    · exact .inr (hp.trans (congrFun₂ (blank_register w m.address (some m.directory)) _ _))

theorem mem_projects_afterRegistration (hp : p ∈ (w.afterRegistration S).projects) :
    p ∈ w.projects ∨ p = w.blank p.address p.directory := by
  rcases mem_projects_registerAll hp with hp | hp
  · change p ∈ (w.register Address.root (some w.root)).1.projects at hp
    exact mem_projects_register hp
  · exact .inr (hp.trans (congrFun₂ (blank_register w Address.root (some w.root)) _ _))

theorem Fresh.register (h : w.Fresh) (address : String) (directory : Option Path) :
    (w.register address directory).1.Fresh := by
  obtain ⟨ps, hps⟩ := register_eq w address directory
  refine ⟨h.consistent.register address directory, by rw [hps]; exact h.unconfigured, fun p hp => ?_⟩
  rw [blank_register]
  exact (mem_projects_register hp).elim (h.blank p) id

theorem Fresh.registerAll (h : w.Fresh) (ms : List FoundModule) : (w.registerAll ms).1.Fresh := by
  induction ms generalizing w with
  | nil => exact h
  | cons m ms ih => exact ih (h.register m.address (some m.directory))

theorem Fresh.afterRegistration (h : w.Fresh) (S : Session) : (w.afterRegistration S).Fresh := by
  have hroot := h.register Address.root (some w.root)
  have hwalked (discovery : Option Discovery) :
      { (w.register Address.root (some w.root)).1 with discovery }.Fresh :=
    ⟨⟨hroot.consistent.nodup, hroot.consistent.normal, hroot.consistent.sound⟩, hroot.unconfigured,
      hroot.blank⟩
  exact (hwalked _).registerAll _

theorem Prepared.fresh (h : w.Prepared) : w.Fresh := by
  induction h with
  | created h =>
    have hconsistent := consistent_create h
    obtain ⟨root, settings, path, rfl⟩ := eq_of_create h
    exact ⟨hconsistent, rfl, by simp⟩
  | registered _ address directory ih => exact ih.register address directory

/-! ### Registering more -/

/-- Registering changes nothing but the modules and the record of the walk. -/
theorem afterRegistration_eq (w : Workspace) (S : Session) :
    ∃ projects discovery, w.afterRegistration S = { w with projects, discovery } := by
  obtain ⟨ps, hps⟩ := register_eq w Address.root (some w.root)
  obtain ⟨qs, hqs⟩ := registerAll_eq { (w.register Address.root (some w.root)).1 with
    discovery := some (found (w.register Address.root (some w.root)).1 S) }
    (found (w.register Address.root (some w.root)).1 S).modules
  rw [afterRegistration, hqs, hps]
  exact ⟨_, _, rfl⟩

theorem sites_prefix_register (w : Workspace) (address : String) (directory : Option Path) :
    w.sites <+: (w.register address directory).1.sites := by
  rw [sites_register]
  split
  · exact List.prefix_refl _
  · exact List.prefix_append _ _

theorem sites_prefix_registerAll (w : Workspace) (ms : List FoundModule) :
    w.sites <+: (w.registerAll ms).1.sites := by
  induction ms generalizing w with
  | nil => exact List.prefix_refl _
  | cons m ms ih => exact (sites_prefix_register w _ _).trans (ih _)

/-- What was registered before is registered behind the walk, at the same positions. -/
theorem sites_prefix_afterRegistration (w : Workspace) (S : Session) :
    w.sites <+: (w.afterRegistration S).sites := by
  have hwalked (discovery : Option Discovery) : w.sites <+:
      sites { (w.register Address.root (some w.root)).1 with discovery } :=
    sites_prefix_register w Address.root (some w.root)
  exact (hwalked _).trans (sites_prefix_registerAll _ _)

theorem addresses_prefix_of_sites (h : w.sites <+: v.sites) : w.addresses <+: v.addresses := by
  rw [← map_fst_sites, ← map_fst_sites]
  exact h.map Prod.fst

theorem root_mem_afterRegistration (w : Workspace) (S : Session) :
    Address.root ∈ (w.afterRegistration S).addresses := by
  have hnormal : w.normalize Address.root = Address.root := Address.normalize_root _
  have hroot : Address.root ∈ (w.register Address.root (some w.root)).1.addresses :=
    hnormal ▸ mem_addresses_register w Address.root (some w.root)
  have hwalked (discovery : Option Discovery) : Address.root ∈
      addresses { (w.register Address.root (some w.root)).1 with discovery } := hroot
  exact (addresses_prefix_of_sites (sites_prefix_registerAll _ _)).subset (hwalked _)

/-! ### Behind the configuration -/

/-- A configured workspace whose modules are what their files make of modules that had just been
registered. -/
structure SetUp (w : Workspace) (files : FileStore) : Prop where
  consistent : w.Consistent
  configured : w.configured = true
  made : ∀ p ∈ w.projects, p = w.linked ((w.blank p.address p.directory).given (w.filePath p)
    (w.rootFile files) (w.fileOf files p))
  refer : ∀ p ∈ w.projects, ∀ r ∈ p.references, w.normalize r ∈ w.addresses

theorem settled_keeps (w : Workspace) (files : FileStore) (p : Project) :
    (w.settled files p).address = p.address ∧ (w.settled files p).directory = p.directory :=
  w.readProject_keeps files p

theorem find?_map {f : Project → Project} (hf : ∀ p, (f p).address = p.address) (a : String)
    {configured : Bool} : find? { w with projects := w.projects.map f, configured } a =
      (w.find? a).map f := by
  have hsame : (fun p => decide (p.address = a)) ∘ f = fun p => decide (p.address = a) := by
    funext p
    rw [Function.comp_apply, hf]
  rw [find?, find?, List.find?_map, hsame]

theorem sites_whole (w : Workspace) (files : FileStore) : (w.whole files).sites = w.sites := by
  change (w.projects.map (w.settled files)).map _ = _
  rw [List.map_map, sites]
  refine List.map_congr_left fun p _ => ?_
  rw [Function.comp_apply, (w.settled_keeps files p).1, (w.settled_keeps files p).2]

theorem addresses_whole (w : Workspace) (files : FileStore) :
    (w.whole files).addresses = w.addresses := by
  rw [← map_fst_sites, sites_whole, map_fst_sites]

theorem filePath_whole (w : Workspace) (files : FileStore) (p : Project) :
    (w.whole files).filePath (w.settled files p) = w.filePath p := by
  rw [filePath, filePath, (w.settled_keeps files p).2]
  rfl

theorem moduleAt_whole (w : Workspace) (files : FileStore) (a : String) :
    (w.whole files).moduleAt files a = w.moduleAt files a := by
  rw [moduleAt, moduleAt, whole, find?_map fun p => (w.settled_keeps files p).1, Option.bind_map]
  congr 1
  funext p
  exact congrArg (ModuleFile.at? files) (filePath_whole w files p)

/-- A workspace whose files are legible is set up. -/
theorem Legible.setUp (hfresh : w.Fresh) (h : w.Legible files) : (w.whole files).SetUp files := by
  have haddresses := addresses_whole w files
  have htargets : (w.whole files).targets = w.targets := by
    funext rs
    rw [targets, targets, show (w.whole files).target? = w.target? from
      funext (target?_congr haddresses rfl)]
  refine ⟨⟨haddresses ▸ hfresh.consistent.nodup, ?_, hfresh.consistent.sound⟩, rfl, ?_, ?_⟩
  · intro a ha
    rw [haddresses] at ha
    exact hfresh.consistent.normal a ha
  · intro p hp
    obtain ⟨p₀, hp₀, rfl⟩ := List.mem_map.mp hp
    have hblank : (w.whole files).blank p₀.address p₀.directory = p₀ := (hfresh.blank p₀ hp₀).symm
    have hfile : (w.whole files).fileOf files (w.settled files p₀) = w.fileOf files p₀ :=
      congrArg (ModuleFile.at? files) (filePath_whole w files p₀)
    rw [(w.settled_keeps files p₀).1, (w.settled_keeps files p₀).2, hblank, filePath_whole, rootFile,
      moduleAt_whole, hfile, settled, readProject_eq (h.read p₀ hp₀), linked, linked, htargets]
  · intro p hp r hr
    obtain ⟨p₀, hp₀, rfl⟩ := List.mem_map.mp hp
    rw [haddresses]
    exact h.refer p₀ hp₀ r hr

/-- **Configuring**, as a whole: it succeeds exactly if all files are legible. -/
theorem exec_configure_cases (hconsistent : w.Consistent) (hunconfigured : w.configured = false)
    (S : Session) :
    let w₁ := w.afterRegistration S
    (w₁.Legible S.files ∧
      ∃ log, exec configure (w, S) = (.ok (), (w₁.whole S.files, { S with log }))) ∨
    ¬ w₁.Legible S.files ∧ ∃ fault projects log,
      exec configure (w, S) = (.error fault, ({ w₁ with projects }, { S with log })) ∧
      ((∀ p ∈ w₁.projects, (p.reading (w₁.filePath p) S.files none).answer = .ok (w₁.fileOf S.files p)) →
        (∃ p ∈ w₁.projects, ∃ r ∈ (w₁.readProject S.files p).references, w₁.normalize r ∉ w₁.addresses ∧
          fault = .unknownModule r (some (w₁.readProject S.files p).descriptor.name)) ∧
        ∀ q ∈ projects, ∃ p ∈ w₁.projects, q = w₁.readProject S.files p ∨ q = w₁.settled S.files p) := by
  obtain ⟨log, hexec⟩ := exec_configure hunconfigured S
  rw [hexec]
  exact exec_readAndLink (hconsistent.afterRegistration S) (root_mem_afterRegistration w S)
    { S with log }

theorem exec_configure_of_legible (hconsistent : w.Consistent) (hunconfigured : w.configured = false)
    (hlegible : (w.afterRegistration S).Legible S.files) :
    ∃ log, exec configure (w, S) =
      (.ok (), ((w.afterRegistration S).whole S.files, { S with log })) := by
  rcases exec_configure_cases hconsistent hunconfigured S with ⟨-, hdone⟩ | ⟨hnot, -⟩
  · exact hdone
  · exact absurd hlegible hnot

theorem legible_of_configure (hconsistent : w.Consistent) (hunconfigured : w.configured = false)
    (hdone : exec configure (w, S) = (.ok (), (v, T))) :
    (w.afterRegistration S).Legible S.files ∧ v = (w.afterRegistration S).whole S.files ∧
      T.files = S.files := by
  rcases exec_configure_cases hconsistent hunconfigured S with
    ⟨hlegible, log, hrun⟩ | ⟨-, fault, projects, log, hrun, -⟩
  · rw [hrun] at hdone
    cases hdone
    exact ⟨hlegible, rfl, rfl⟩
  · rw [hrun] at hdone
    cases hdone

/-- **Configuring** modules that have just been registered. -/
theorem Fresh.setUp (hfresh : w.Fresh) (hdone : exec configure (w, S) = (.ok (), (v, T))) :
    v.SetUp T.files := by
  obtain ⟨hlegible, rfl, hfiles⟩ := legible_of_configure hfresh.consistent hfresh.unconfigured hdone
  rw [hfiles]
  exact hlegible.setUp (hfresh.afterRegistration S)

end Workspace

end ModulePins
