import ModulePins.Proofs.Workspace.Order
import ModulePins.Proofs.Workspace.Repeated

/-!
# Configuring in several attempts

Configuring can fail because a module refers to one that is not registered. The missing module may be
registered then, and configuring starts from the beginning: it reads every module file and makes every
link once more, on descriptors that have been through it before.

No attempt is lost, and none shows. As long as the files stay as they are, a module comes out of each
attempt with its pins once more at the end and with links to some of the modules that it refers to, in
their order (`Project.Tried`); what else is known of it is replaced. So the attempt that succeeds
leaves what a single one leaves on modules that have just been registered, behind leftovers.

## Main definitions

* `Workspace.Retried` — a workspace that it was tried to configure, any number of times
* `Project.Tried` — a module that has come out of such attempts
* `Workspace.anew` — the same modules, just registered

## Main results

* `Workspace.Retried.underway` — what each attempt leaves
* `Workspace.configure_of_retried` — the attempts before do not matter
-/

namespace ModulePins

open ModuleFile (Declarable declare Worn)
open Descriptor (Bare)

/-! ### One module -/

namespace Project

variable {o : Option ModuleFile} {ts is : List DescriptorId} {b p : Project}

theorem descriptor_given (p : Project) (path : Path) (defaults o : Option ModuleFile) :
    (p.given path defaults o).descriptor = declare o p.descriptor := by
  cases o <;> rfl

theorem given_keeps (p : Project) (path : Path) (defaults o : Option ModuleFile) :
    (p.given path defaults o).address = p.address ∧
      (p.given path defaults o).directory = p.directory := by
  cases o <;> exact ⟨rfl, rfl⟩

/-- What a module file says replaces what it said before, but for the descriptor. -/
theorem given_again (p : Project) (path path' : Path) (defaults defaults' o : Option ModuleFile)
    (is : List DescriptorId) :
    ((p.given path defaults o).refer is).given path' defaults' o = { p.given path' defaults' o with
      descriptor := declare o ((p.given path defaults o).refer is).descriptor } := by
  cases o <;> rfl

/-- A module that has come out of attempts to set up the module `b`, which has the module file `o`
and refers to the modules at `ts`. -/
structure Tried (o : Option ModuleFile) (ts : List DescriptorId) (b p : Project) : Prop where
  given : ∀ path defaults, p.given path defaults o =
    { b.given path defaults o with descriptor := declare o p.descriptor }
  worn : Worn o ts b.descriptor p.descriptor

theorem Tried.of_bare (ho : Declarable o) (hb : Bare b.descriptor) (ts : List DescriptorId) :
    Tried o ts b b where
  given path defaults := by rw [← descriptor_given b path defaults o]
  worn := .of_bare ho hb ts

/-- One more attempt: the file is read, and some links are made. -/
theorem Tried.next (h : Tried o ts b p) (ho : Declarable o) (hb : Bare b.descriptor)
    (his : is <+: ts) (path : Path) (defaults : Option ModuleFile) :
    Tried o ts b ((p.given path defaults o).refer is) where
  given path' defaults' := by rw [given_again, h.given]
  worn := by
    rw [descriptor_refer, descriptor_given]
    exact h.worn.next ho hb his

/-- The last attempt, in which all links are made. -/
theorem Tried.repeats (h : Tried o ts b p) (hb : Bare b.descriptor) (path : Path)
    (defaults : Option ModuleFile) :
    Repeats ((b.given path defaults o).refer ts) ((p.given path defaults o).refer ts) where
  rest := by
    rw [h.given]
    rfl
  descriptor := by
    rw [descriptor_refer, descriptor_refer, descriptor_given, descriptor_given]
    exact h.worn.repeats hb

theorem Tried.references (h : Tried o ts b p) (path : Path) (defaults : Option ModuleFile) :
    (p.given path defaults o).references = (b.given path defaults o).references := by
  rw [h.given]

end Project

namespace Workspace

open ModulePins.Task

variable {u w w' v v' : Workspace} {S S' T T' : Session} {files : FileStore} {p q : Project}
  {r a : String} {i : ℕ}

/-! ### Fewer modules -/

theorem target?_of_prefix (hsites : w.sites <+: u.sites) (hsettings : w.settings = u.settings)
    (h : w.target? r = some i) : u.target? r = some i := by
  obtain ⟨more, hmore⟩ := addresses_prefix_of_sites hsites
  rw [target?, position?_eq_findIdx?, normalize, hsettings] at h
  rw [target?, position?_eq_findIdx?, normalize, ← hmore, List.findIdx?_append, h]
  rfl

/-- What is linked with fewer modules is a beginning of what is linked with more. -/
theorem targets_prefix_of_sites (hsites : w.sites <+: u.sites) (hsettings : w.settings = u.settings)
    (rs : List String) : w.targets rs <+: u.targets rs := by
  induction rs with
  | nil => simp [targets]
  | cons r rs ih =>
    simp only [targets] at ih ⊢
    cases hr : w.target? r with
    | none => simp [hr]
    | some i => simpa [hr, target?_of_prefix hsites hsettings hr] using ih

theorem bare_blank (w : Workspace) (a : String) (directory : Path) :
    Bare (w.blank a directory).descriptor := ⟨rfl, rfl, rfl, rfl⟩

theorem Accepts.declarable (h : w.Accepts files p.directory) : Declarable (w.fileOf files p) := by
  rcases fileOf_of_accepts h with ⟨-, hnone⟩ | ⟨file, hcontents, hsome, hfault, -⟩
  · rw [hnone]
    simp [Declarable]
  · rw [hsome]
    rintro _ ⟨⟩
    exact ⟨ModuleFile.clean_of_contents hcontents, hfault⟩

/-! ### Underway -/

/-- The module has come out of attempts to set it up, when `u` has all modules. -/
def Tried (u : Workspace) (files : FileStore) (p : Project) : Prop :=
  Project.Tried (u.fileOf files p) (u.targets (u.referencesOf files p))
    (u.blank p.address p.directory) p

theorem tried_blank (haccepts : u.Accepts files p.directory) (hp : p = u.blank p.address p.directory) :
    u.Tried files p := by
  have hbare : Bare p.descriptor := by
    rw [hp]
    exact bare_blank _ _ _
  rw [Tried, ← hp]
  exact .of_bare haccepts.declarable hbare _

theorem Tried.next (h : u.Tried files p) (haccepts : u.Accepts files p.directory)
    {is : List DescriptorId} (his : is <+: u.targets (u.referencesOf files p)) (path : Path)
    (defaults : Option ModuleFile) :
    u.Tried files ((p.given path defaults (u.fileOf files p)).refer is) := by
  obtain ⟨haddress, hdirectory⟩ := Project.given_keeps p path defaults (u.fileOf files p)
  have hfile : u.fileOf files ((p.given path defaults (u.fileOf files p)).refer is) =
      u.fileOf files p := by
    rw [fileOf, filePath, Project.directory_refer, hdirectory]
    rfl
  rw [Tried, referencesOf, hfile, Project.address_refer, Project.directory_refer, haddress, hdirectory]
  exact Project.Tried.next h haccepts.declarable (bare_blank _ _ _) his path defaults

/-- What a module refers to is what its file refers to, however often it was read. -/
theorem Tried.references (h : u.Tried files p) (path : Path) (defaults : Option ModuleFile) :
    (p.given path defaults (u.fileOf files p)).references = u.referencesOf files p := by
  rw [Project.Tried.references h]
  exact (given_blank u p.address p.directory path defaults (u.fileOf files p)).2.2.2

/-- A workspace on the way to `u`: each of its modules has come out of attempts to set it up. -/
structure Underway (u : Workspace) (files : FileStore) (w : Workspace) : Prop where
  settings : w.settings = u.settings
  tried : ∀ p ∈ w.projects, u.Tried files p

section

variable (haccepts : ∀ site ∈ u.sites, u.Accepts files site.2)

include haccepts

/-- More modules are registered. -/
theorem Underway.extend (h : Underway u files w) (hsettings : w'.settings = w.settings)
    (hsites : w'.sites <+: u.sites)
    (hnew : ∀ p ∈ w'.projects, p ∈ w.projects ∨ p = w.blank p.address p.directory) :
    Underway u files w' := by
  refine ⟨hsettings.trans h.settings, fun p hp => ?_⟩
  rcases hnew p hp with hold | hblank
  · exact h.tried p hold
  · rw [← blank_congr h.settings.symm] at hblank
    exact tried_blank (haccepts (p.address, p.directory) (hsites.subset (mem_sites_iff.mpr ⟨p, hp, rfl, rfl⟩))) hblank

theorem Underway.accepts (hsites : w.sites <+: u.sites) (hp : p ∈ w.projects) :
    u.Accepts files p.directory :=
  haccepts (p.address, p.directory) (hsites.subset (mem_sites_iff.mpr ⟨p, hp, rfl, rfl⟩))

omit haccepts in
theorem Underway.fileOf_eq (h : Underway u files w) (p : Project) :
    w.filePath p = u.filePath p ∧ w.fileOf files p = u.fileOf files p := by
  have hpath : w.filePath p = u.filePath p := by rw [filePath, filePath, h.settings]
  exact ⟨hpath, congrArg (ModuleFile.at? files) hpath⟩

/-- The file of each module can be read in each attempt. -/
theorem Underway.answer (h : Underway u files w) (hsites : w.sites <+: u.sites)
    (hp : p ∈ w.projects) :
    (p.reading (w.filePath p) files none).answer = .ok (w.fileOf files p) := by
  rw [(h.fileOf_eq p).1, (h.fileOf_eq p).2]
  exact answer_of_accepts (Underway.accepts haccepts hsites hp)

theorem Underway.readProject_eq (h : Underway u files w) (hsites : w.sites <+: u.sites)
    (hp : p ∈ w.projects) : w.readProject files p =
      p.given (w.filePath p) (w.rootFile files) (u.fileOf files p) := by
  rw [Workspace.readProject_eq (h.answer haccepts hsites hp), (h.fileOf_eq p).2]

theorem Underway.settled_eq (h : Underway u files w) (hsites : w.sites <+: u.sites)
    (hp : p ∈ w.projects) : w.settled files p =
      (p.given (w.filePath p) (w.rootFile files) (u.fileOf files p)).refer
        (w.targets (u.referencesOf files p)) := by
  rw [settled, linked, h.readProject_eq haccepts hsites hp, (h.tried p hp).references]

/-- Reading, and perhaps linking to the modules that are there, is one more attempt. -/
theorem Underway.step (h : Underway u files w) (hsites : w.sites <+: u.sites)
    (hp : p ∈ w.projects) (hq : q = w.readProject files p ∨ q = w.settled files p) :
    u.Tried files q := by
  have hnext {is : List DescriptorId} (his : is <+: u.targets (u.referencesOf files p)) :=
    (h.tried p hp).next (Underway.accepts haccepts hsites hp) his (w.filePath p) (w.rootFile files)
  rcases hq with rfl | rfl
  · rw [h.readProject_eq haccepts hsites hp]
    have hread := hnext List.nil_prefix
    rwa [Project.refer_nil] at hread
  · rw [h.settled_eq haccepts hsites hp]
    exact hnext (targets_prefix_of_sites hsites h.settings _)

end

/-! ### Attempts -/

/-- A workspace that was created, and in which modules may have been registered and configuring may
have failed, each any number of times and in any order. The files were always the same. -/
inductive Retried (files : FileStore) : Workspace → Prop
  | created {directory : Path} {settings : Option Settings} {inMemory : Bool} {S S' : Session}
      {w : Workspace} (h : exec (create directory settings inMemory) S = (.ok w, S')) : Retried files w
  | registered {w : Workspace} (before : Retried files w) (address : String)
      (directory : Option Path) : Retried files (w.register address directory).1
  | refused {w w' : Workspace} {S S' : Session} {fault : Fault} (before : Retried files w)
      (hfiles : S.files = files) (h : exec configure (w, S) = (.error fault, (w', S'))) :
      Retried files w'

theorem Retried.consistent (h : w.Retried files) : w.Consistent := by
  induction h with
  | created h => exact consistent_create h
  | registered _ address directory ih => exact ih.register address directory
  | refused _ _ h ih => exact ih.configure h

theorem Retried.unconfigured (h : w.Retried files) : w.configured = false := by
  induction h with
  | created h =>
    obtain ⟨root, settings, path, rfl⟩ := eq_of_create h
    rfl
  | @registered w _ address directory ih =>
    obtain ⟨ps, hps⟩ := register_eq w address directory
    rw [hps]
    exact ih
  | refused before _ h ih =>
    rcases exec_configure_cases before.consistent ih _ with
      ⟨-, log, hrun⟩ | ⟨-, fault, projects, log, hrun, -⟩ <;>
      rw [hrun] at h <;> cases h
    obtain ⟨ps, d, hps⟩ := afterRegistration_eq _ _
    rw [hps]
    exact ih

/-- **What the attempts leave.** The induction is on the history; in each state the modules that are
there are the first of those that will be there. -/
theorem Retried.underway (h : w.Retried files)
    (haccepts : ∀ site ∈ u.sites, u.Accepts files site.2) (hsettings : w.settings = u.settings)
    (hsites : w.sites <+: u.sites) : Underway u files w := by
  induction h with
  | created h => exact ⟨hsettings, by simp [eq_nil_of_create h]⟩
  | @registered w _ address directory ih =>
    obtain ⟨ps, hps⟩ := register_eq w address directory
    have hkept : (w.register address directory).1.settings = w.settings := by rw [hps]
    exact (ih (hkept.symm.trans hsettings)
      ((sites_prefix_register w address directory).trans hsites)).extend haccepts hkept hsites
      fun p hp => mem_projects_register hp
  | @refused w w' S S' fault before hfiles h ih =>
    subst hfiles
    have hsame := (undisturbed_configure before.unconfigured h).sites
    rw [hsame] at hsites
    rcases exec_configure_cases before.consistent before.unconfigured S with
      ⟨-, log, hrun⟩ | ⟨-, fault, projects, log, hrun, hsteps⟩ <;>
      rw [hrun] at h <;> cases h
    obtain ⟨ps, d, hps⟩ := afterRegistration_eq w S
    have hkept : (w.afterRegistration S).settings = w.settings := by rw [hps]
    have hregistered : Underway u S.files (w.afterRegistration S) :=
      (ih (hkept.symm.trans hsettings)
        ((sites_prefix_afterRegistration w S).trans hsites)).extend haccepts hkept hsites
        fun p hp => mem_projects_afterRegistration hp
    refine ⟨hregistered.settings, fun q hq => ?_⟩
    obtain ⟨p, hp, hstep⟩ :=
      (hsteps fun p hp => hregistered.answer haccepts hsites hp).2 q hq
    exact hregistered.step haccepts hsites hp hstep

/-- When all modules have been registered, what is there is on the way to what is there. -/
theorem Retried.underway_afterRegistration (h : w.Retried S.files)
    (haccepts : ∀ site ∈ (w.afterRegistration S).sites, (w.afterRegistration S).Accepts S.files site.2) :
    Underway (w.afterRegistration S) S.files (w.afterRegistration S) := by
  obtain ⟨ps, d, hps⟩ := afterRegistration_eq w S
  have hkept : (w.afterRegistration S).settings = w.settings := by rw [hps]
  exact (h.underway haccepts hkept.symm (sites_prefix_afterRegistration w S)).extend haccepts hkept
    (List.prefix_refl _) fun p hp => mem_projects_afterRegistration hp

/-! ### The attempt that succeeds -/

/-- The same modules, just registered. -/
def anew (w : Workspace) : Workspace :=
  { w with projects := w.projects.map fun p => w.blank p.address p.directory }

theorem sites_anew (w : Workspace) : w.anew.sites = w.sites := by
  rw [sites, sites, anew, List.map_map]
  rfl

theorem reordered_anew (w : Workspace) : Reordered w w.anew :=
  ⟨rfl, rfl, fun site => by rw [sites_anew]⟩

theorem addresses_anew (w : Workspace) : w.anew.addresses = w.addresses := by
  rw [← map_fst_sites, sites_anew, map_fst_sites]

theorem Consistent.fresh_anew (h : w.Consistent) (hunconfigured : w.configured = false) :
    w.anew.Fresh := by
  refine ⟨⟨addresses_anew w ▸ h.nodup, fun a ha => h.normal a (addresses_anew w ▸ ha), h.sound⟩,
    hunconfigured, fun p hp => ?_⟩
  obtain ⟨q, -, rfl⟩ := List.mem_map.mp hp
  rfl

theorem Legible.accepts (h : w.Legible files) : ∀ site ∈ w.sites, w.Accepts files site.2 := by
  intro site hsite
  obtain ⟨p, hp, -, hdirectory⟩ := mem_sites_iff.mp hsite
  rw [← hdirectory]
  exact accepts_of_answer (h.read p hp) (h.refer p hp)

/-- Modules that have come out of attempts are legible if their directories are as they have to be. -/
theorem Underway.legible (h : Underway w files w)
    (haccepts : ∀ site ∈ w.sites, w.Accepts files site.2) : w.Legible files := by
  refine ⟨fun p hp => h.answer haccepts (List.prefix_refl _) hp, fun p hp r hr => ?_⟩
  rw [h.readProject_eq haccepts (List.prefix_refl _) hp, (h.tried p hp).references, referencesOf] at hr
  rcases fileOf_of_accepts (Underway.accepts haccepts (List.prefix_refl _) hp) with
    ⟨-, hnone⟩ | ⟨file, -, hsome, -, hrefer⟩
  · simp [hnone] at hr
  · rw [hsome] at hr
    exact hrefer r hr

/-- **Configuring once more succeeds** exactly if the directories of all modules are as they have to
be, whatever was tried before. -/
theorem Retried.isOk_configure_iff {answer : Except Fault Unit} (h : w.Retried S.files)
    (hrun : exec configure (w, S) = (answer, (v, T))) :
    answer = .ok () ↔ ∀ site ∈ v.sites, v.Accepts S.files site.2 := by
  have hrest := undisturbed_configure h.unconfigured hrun
  have hconditions : (∀ site ∈ v.sites, v.Accepts S.files site.2) ↔
      ∀ site ∈ (w.afterRegistration S).sites, (w.afterRegistration S).Accepts S.files site.2 := by
    rw [hrest.sites]
    simp only [hrest.reordered.accepts_iff]
  rw [hconditions]
  constructor
  · rintro rfl
    exact (legible_of_configure h.consistent h.unconfigured hrun).1.accepts
  · intro haccepts
    obtain ⟨log, hdone⟩ := exec_configure_of_legible h.consistent h.unconfigured
      ((h.underway_afterRegistration haccepts).legible haccepts)
    exact congrArg Prod.fst (hrun.symm.trans hdone)

/-- **The attempt that succeeds** makes of the modules what a first one makes of them, but for
repetitions. -/
theorem Underway.repeats_whole (h : Underway w files w) (hconsistent : w.Consistent)
    (hunconfigured : w.configured = false) (hlegible : w.Legible files) :
    Repeats (w.anew.whole files) (w.whole files) where
  settings := rfl
  configured := rfl
  projects := by
    have hfresh := hconsistent.fresh_anew hunconfigured
    have hsites : w.anew.sites <+: w.sites := sites_anew w ▸ List.prefix_refl _
    have hanew : Underway w files w.anew := by
      refine ⟨rfl, fun p hp => ?_⟩
      exact tried_blank (Underway.accepts hlegible.accepts hsites hp) (hfresh.blank p hp)
    have htargets : w.anew.targets = w.targets := by
      funext rs
      rw [targets, targets, show w.anew.target? = w.target? from
        funext (target?_congr (addresses_anew w) rfl)]
    have hroot : w.anew.rootFile files = w.rootFile files :=
      (reordered_anew w).moduleAt_eq hfresh.consistent files _
    change List.Forall₂ _ ((w.projects.map _).map _) (w.projects.map _)
    rw [List.map_map, List.forall₂_map_left_iff, List.forall₂_map_right_iff, List.forall₂_same]
    intro p hp
    have hp' : w.blank p.address p.directory ∈ w.anew.projects := List.mem_map_of_mem hp
    rw [Function.comp_apply, h.settled_eq hlegible.accepts (List.prefix_refl _) hp,
      hanew.settled_eq hlegible.accepts hsites hp', htargets, hroot]
    exact (h.tried p hp).repeats (bare_blank _ _ _) _ _

/-! ### All at once -/

/-- The modules that a walk has found are registered. -/
theorem mem_addresses_registerAll {ms : List FoundModule} :
    ∀ m ∈ ms, w.normalize m.address ∈ (w.registerAll ms).1.addresses := by
  induction ms generalizing w with
  | nil => simp
  | cons m ms ih =>
    rw [registerAll_cons]
    refine List.forall_mem_cons.mpr ⟨?_, fun m' hm' => ?_⟩
    · exact (addresses_prefix_of_sites (sites_prefix_registerAll _ ms)).subset
        (mem_addresses_register w m.address (some m.directory))
    · rw [← normalize_register w m.address (some m.directory)]
      exact ih m' hm'

theorem mem_addresses_afterRegistration (w : Workspace) (S : Session) :
    ∀ m ∈ (found w S).modules, w.normalize m.address ∈ (w.afterRegistration S).addresses := by
  intro m hm
  rw [← found_register w Address.root (some w.root)] at hm
  rw [← normalize_register w Address.root (some w.root)]
  exact mem_addresses_registerAll m hm

/-- Modules that are registered already are not registered again. -/
theorem sites_registerAll_of_mem {ms : List FoundModule}
    (h : ∀ m ∈ ms, w.normalize m.address ∈ w.addresses) : (w.registerAll ms).1.sites = w.sites := by
  induction ms generalizing w with
  | nil => rfl
  | cons m ms ih =>
    obtain ⟨hm, hms⟩ := List.forall_mem_cons.mp h
    have hsame : (w.register m.address (some m.directory)).1.sites = w.sites := by
      rw [sites_register, if_pos hm]
    have haddresses : (w.register m.address (some m.directory)).1.addresses = w.addresses := by
      rw [← map_fst_sites, hsame, map_fst_sites]
    rw [registerAll_cons, ih fun m' hm' => ?_, hsame]
    rw [normalize_register, haddresses]
    exact hms m' hm'

theorem sites_afterRegistration_of_mem (hroot : Address.root ∈ w.addresses)
    (h : ∀ m ∈ (found w S).modules, w.normalize m.address ∈ w.addresses) :
    (w.afterRegistration S).sites = w.sites := by
  have hsame : (w.register Address.root (some w.root)).1.sites = w.sites := by
    have hnormal : w.normalize Address.root = Address.root := Address.normalize_root _
    rw [sites_register, hnormal, if_pos hroot]
  have haddresses : (w.register Address.root (some w.root)).1.addresses = w.addresses := by
    rw [← map_fst_sites, hsame, map_fst_sites]
  refine (sites_registerAll_of_mem fun m hm => ?_).trans hsame
  rw [found_register] at hm
  change (w.register Address.root (some w.root)).1.normalize m.address ∈
    (w.register Address.root (some w.root)).1.addresses
  rw [normalize_register, haddresses]
  exact h m hm

/-- Modules in two orders have the same coordinates. -/
theorem Reordered.get_coordinate (h : Reordered v v') (hsetUp : v.SetUp files)
    (hsetUp' : v'.SetUp files) (a : String) :
    (v'.get a).map Project.coordinate = (v.get a).map Project.coordinate := by
  have hnormal : v'.normalize a = v.normalize a := by rw [normalize, normalize, h.settings]
  rw [Workspace.get, Workspace.get, hnormal]
  cases hp : v.find? (v.normalize a) with
  | none =>
    have hnot : v'.find? (v.normalize a) = none :=
      find?_eq_none_iff.mpr (mt (h.mem_addresses_iff _).mp (find?_eq_none_iff.mp hp))
    rw [hnot]
  | some p =>
    have haddress : p.address = v.normalize a := address_of_find? hp
    obtain ⟨q, hq, hsame, -, hcoordinate, -⟩ :=
      h.coordinate_eq hsetUp hsetUp' (List.mem_of_find?_eq_some hp)
    rw [← haddress, ← hsame, hsetUp'.consistent.find?_eq hq]
    exact congrArg Except.ok hcoordinate

/-- All modules are registered before configuring, in some order. -/
theorem configure_of_reordered (hu : u.Prepared) (hordered : Reordered w u)
    (haccepts : ∀ site ∈ w.sites, w.Accepts S.files site.2) (hroot : Address.root ∈ w.addresses)
    (hfound : ∀ m ∈ (found w S).modules, w.normalize m.address ∈ w.addresses) :
    ∃ v T, exec configure (u, S) = (.ok (), (v, T)) ∧ Reordered w v ∧ v.SetUp S.files := by
  obtain ⟨r, ⟨v, T⟩, hrun⟩ : ∃ r st, exec configure (u, S) = (r, st) := ⟨_, _, rfl⟩
  have hrest := undisturbed_configure hu.fresh.unconfigured hrun
  have hregistered : (u.afterRegistration S).sites = u.sites := by
    refine sites_afterRegistration_of_mem ((hordered.mem_addresses_iff _).mpr hroot) fun m hm => ?_
    rw [hordered.mem_addresses_iff, normalize, hordered.settings]
    exact hfound m (found_congr hordered.root hordered.settings rfl ▸ hm)
  obtain ⟨ps, d, hps⟩ := afterRegistration_eq u S
  have hsame : Reordered u (u.afterRegistration S) :=
    ⟨by rw [hps], by rw [hps], fun site => by rw [hregistered]⟩
  have hreordered : Reordered w v := (hordered.trans hsame).trans hrest.reordered
  have hok : r = .ok () := by
    rw [isOk_configure_iff hu.fresh hrun]
    intro site hsite
    exact (hreordered.accepts_iff _ _).mpr (haccepts site ((hreordered.sites site).mp hsite))
  subst hok
  have hsetUp := hu.fresh.setUp hrun
  rw [hrest.files] at hsetUp
  exact ⟨v, T, hrun, hreordered, hsetUp⟩

/-- **Failed attempts do not matter.** In a workspace that has been created modules may be registered
and configuring may fail, any number of times, over files that stay as they are; then configuring
succeeds. In another workspace over the same files, all of its modules are registered in the same
directories before it is configured once. Then this succeeds too, and there are the same modules,
with the same coordinates, and they are rendered the same, masked or not, be it a text, a cycle or
another fault. -/
theorem configure_of_retried (h : w.Retried S.files)
    (hrun : exec configure (w, S) = (.ok (), (v, T))) (hu : u.Prepared) (hroot : u.root = v.root)
    (hsettings : u.settings = v.settings) (hsites : ∀ site, site ∈ u.sites ↔ site ∈ v.sites)
    (hfiles : S'.files = S.files) :
    ∃ v' T', exec configure (u, S') = (.ok (), (v', T')) ∧
      (∀ site, site ∈ v'.sites ↔ site ∈ v.sites) ∧
      (∀ address, (v'.get address).map Project.coordinate = (v.get address).map Project.coordinate) ∧
      ∀ address masked X X', (exec (render address masked) (v', X')).1 =
        (exec (render address masked) (v, X)).1 := by
  obtain ⟨hlegible, rfl, -⟩ := legible_of_configure h.consistent h.unconfigured hrun
  have hconsistent := h.consistent.afterRegistration S
  obtain ⟨ps, d, hps⟩ := afterRegistration_eq w S
  have hkept : (w.afterRegistration S).settings = w.settings := by rw [hps]
  have hunconfigured : (w.afterRegistration S).configured = false := by
    rw [hps]
    exact h.unconfigured
  have hunderway := h.underway_afterRegistration hlegible.accepts
  have hrepeats := hunderway.repeats_whole hconsistent hunconfigured hlegible
  have hfresh := hconsistent.fresh_anew hunconfigured
  have hanew : (w.afterRegistration S).anew.Legible S.files := by
    rw [legible_iff hfresh, sites_anew]
    exact fun site hsite => ((reordered_anew _).accepts_iff _ _).mpr (hlegible.accepts site hsite)
  rw [sites_whole] at hsites
  have hfound : ∀ m ∈ (found (w.afterRegistration S) S').modules,
      (w.afterRegistration S).normalize m.address ∈ (w.afterRegistration S).addresses := by
    have hsame : found (w.afterRegistration S) S' = found w S :=
      found_congr (by rw [hps]) hkept hfiles
    intro m hm
    rw [hsame] at hm
    rw [normalize, hkept]
    exact mem_addresses_afterRegistration w S m hm
  have hgiven : Reordered (w.afterRegistration S) u := ⟨hroot, hsettings, hsites⟩
  obtain ⟨v', T', hrun', hordered, hsetUp⟩ := configure_of_reordered (S := S') hu hgiven
    (hfiles ▸ hlegible.accepts) (root_mem_afterRegistration w S) hfound
  rw [hfiles] at hsetUp
  have hordered' : Reordered ((w.afterRegistration S).anew.whole S.files) v' :=
    ⟨hordered.root, hordered.settings, fun site => by
      rw [sites_whole, sites_anew]
      exact hordered.sites site⟩
  have hsetUp' := hanew.setUp hfresh
  refine ⟨v', T', hrun', fun site => ?_, fun a => ?_, fun a masked X X' => ?_⟩
  · rw [sites_whole]
    exact hordered.sites site
  · rw [hordered'.get_coordinate hsetUp' hsetUp, hrepeats.get_coordinate]
  · rw [exec_render_eq, exec_render_eq, (hordered'.agreeFrom hsetUp' hsetUp _).rendering rfl,
      hrepeats.rendering]

/-! ### A module that is registered late

Of the three modules the first one, which inherits from the second one, is registered before the
others. -/

def late : Workspace := (trioWith [] none).registerEach [("a", some ⟨.root, ["a"]⟩)]

def lateWith (d : Option Discovery) : Workspace := trioWith [trioModule "a", trioRoot] d

theorem normalize_letters : Address.normalize ":" "a" = "a" ∧ Address.normalize ":" "b" = "b" ∧
    Address.normalize ":" "c" = "c" := by
  refine ⟨?_, ?_, ?_⟩ <;> cbv

theorem afterRegistration_late : ∃ d,
    late.afterRegistration (trioSession ByteArray.empty) = lateWith d := by
  have hroot : (late.register Address.root (some late.root)).1 = lateWith none := by cbv
  have hfound : (found (lateWith none) (trioSession ByteArray.empty)).modules = [] := by cbv
  rw [afterRegistration, hroot, hfound]
  exact ⟨_, rfl⟩

theorem fileOf_late (d : Option Discovery) :
    (lateWith d).fileOf (trio ByteArray.empty) (trioModule "a") = some trioFile ∧
      (lateWith d).fileOf (trio ByteArray.empty) trioRoot = none := by
  obtain ⟨hfile, -, hmissing⟩ := contents_trio ByteArray.empty
  obtain ⟨ha, -, -, hroot⟩ := filePath_trio d
  have ha' : (lateWith d).filePath (trioModule "a") = _ := ha
  have hroot' : (lateWith d).filePath trioRoot = _ := hroot
  rw [fileOf, fileOf, ha', hroot', ModuleFile.at?, ModuleFile.at?, hfile, ModuleFile.contents, hmissing]
  exact ⟨rfl, rfl⟩

/-- What is read of the two modules. -/
theorem reading_late (d : Option Discovery) : ∀ p ∈ (lateWith d).projects,
    (p.reading ((lateWith d).filePath p) (trio ByteArray.empty) none).answer =
        .ok ((lateWith d).fileOf (trio ByteArray.empty) p) ∧
      ∀ r ∈ ((lateWith d).readProject (trio ByteArray.empty) p).references,
        r = "b" ∧ ((lateWith d).readProject (trio ByteArray.empty) p).descriptor.name = ":a" := by
  obtain ⟨hfile, -, hmissing⟩ := contents_trio ByteArray.empty
  obtain ⟨hpa, -, -, hpr⟩ := filePath_trio d
  obtain ⟨ha, hr⟩ := fileOf_late d
  have hname : (declare (some trioFile) (trioModule "a").descriptor).name = ":a" := by cbv
  change ∀ p ∈ [trioModule "a", trioRoot], _
  simp only [List.forall_mem_cons]
  refine ⟨?_, ?_, by simp⟩
  · have hanswer : ((trioModule "a").reading ((lateWith d).filePath (trioModule "a"))
        (trio ByteArray.empty) none).answer = .ok (some trioFile) := by
      exact hpa ▸ Project.answer_of_contents hfile (by cbv)
    have hread := answer_eq_fileOf hanswer
    refine ⟨hread, ?_⟩
    rw [readProject_eq hread, ha, Project.descriptor_given, hname]
    simp [Project.given, Project.loaded, trioFile, ModuleFile.references]
  · have hanswer : (trioRoot.reading ((lateWith d).filePath trioRoot)
        (trio ByteArray.empty) none).answer = .ok none := hpr ▸ Project.answer_of_missing hmissing
    have hread := answer_eq_fileOf hanswer
    refine ⟨hread, ?_⟩
    rw [readProject_eq hread, hr]
    simp [Project.given, Project.unnamed, trioRoot]

theorem prepared_late : late.Prepared := (Prepared.created exec_create_trio).registerEach _

/-- The module that the first one inherits from is missed. -/
theorem exec_configure_late : ∃ ps d T, T.files = trio ByteArray.empty ∧
    exec configure (late, trioSession ByteArray.empty) =
      (.error (.unknownModule "b" (some ":a")), (trioWith ps d, T)) := by
  obtain ⟨d, hregistered⟩ := afterRegistration_late
  have hread := reading_late d
  rcases exec_configure_cases prepared_late.fresh.consistent prepared_late.fresh.unconfigured
    (trioSession ByteArray.empty) with ⟨hlegible, -⟩ | ⟨-, fault, ps, log, hrun, hfault⟩
  · rw [hregistered] at hlegible
    have ha : trioModule "a" ∈ (lateWith d).projects := List.mem_cons_self
    have hrefer : "b" ∈
        ((lateWith d).readProject (trio ByteArray.empty) (trioModule "a")).references := by
      rw [readProject_eq (hread _ ha).1, (fileOf_late d).1]
      simp [Project.given, Project.loaded, trioFile, ModuleFile.references]
    have hknown := hlegible.refer (trioModule "a") ha "b" hrefer
    have hnormal : (lateWith d).normalize "b" = "b" := normalize_letters.2.1
    rw [hnormal] at hknown
    change "b" ∈ ["a", ""] at hknown
    simp at hknown
  · rw [hregistered] at hrun hfault
    obtain ⟨⟨p, hp, r, hr, -, rfl⟩, -⟩ := hfault fun p hp => (hread p hp).1
    obtain ⟨rfl, hname⟩ := (hread p hp).2 r hr
    have hname' : ((lateWith d).readProject (trioSession ByteArray.empty).files p).descriptor.name =
      ":a" := hname
    rw [hname'] at hrun
    exact ⟨ps, d, _, rfl, hrun⟩

/-- The workspace when the other two modules have been registered. -/
def lateAll (ps : List Project) (d : Option Discovery) : Workspace :=
  (trioWith ps d).registerEach [("b", some ⟨.root, ["b"]⟩), ("c", some ⟨.root, ["c"]⟩)]

theorem reordered_lateAll {ps : List Project} {d : Option Discovery}
    (h : (trioWith ps d).sites = [("a", ⟨.root, ["a"]⟩), ("", ⟨.root, ["w"]⟩)]) :
    Reordered (trioAll none) (lateAll ps d) := by
  obtain ⟨-, hb, hc⟩ := normalize_letters
  have hnormal (a : String) : (trioWith ps d).normalize a = Address.normalize ":" a := rfl
  have haddresses : (trioWith ps d).addresses = ["a", ""] := by
    rw [← map_fst_sites, h]
    rfl
  have hsites : (lateAll ps d).sites = [("a", ⟨.root, ["a"]⟩), ("", ⟨.root, ["w"]⟩),
      ("b", ⟨.root, ["b"]⟩), ("c", ⟨.root, ["c"]⟩)] := by
    rw [lateAll, sites_registerEach (by simp [hnormal, hb, hc])
      (by simp [hnormal, hb, hc, haddresses]), h]
    simp [siteOf, hnormal, hb, hc]
  obtain ⟨qs, hqs⟩ := registerEach_eq (trioWith ps d)
    [("b", some ⟨.root, ["b"]⟩), ("c", some ⟨.root, ["c"]⟩)]
  refine ⟨by rw [lateAll, hqs]; rfl, by rw [lateAll, hqs]; rfl, fun site => ?_⟩
  rw [hsites]
  change _ ↔ site ∈ [("a", _), ("b", _), ("c", _), ("", _)]
  simp only [List.mem_cons, List.not_mem_nil, trioModule, trioRoot]
  tauto

theorem prepared_trioAll : (trioAll none).Prepared := by
  have hroot : ((trioWith trioProjects none).register Address.root (some ⟨.root, ["w"]⟩)).1 =
      trioAll none := by
    cbv
  exact hroot ▸ prepared_trio.registered Address.root (some ⟨.root, ["w"]⟩)

/-- Configuring finds no further modules. -/
theorem reordered_afterRegistration {w : Workspace} {S : Session} (h : Reordered (trioAll none) w)
    (hfiles : S.files = trio ByteArray.empty) :
    Reordered (trioAll none) (w.afterRegistration S) := by
  have hfound : (found w S).modules = [] := by
    have hsame : found w S = found (trioAll none) (trioSession ByteArray.empty) :=
      found_congr h.root h.settings hfiles
    rw [hsame]
    cbv
  have hsites : (w.afterRegistration S).sites = w.sites := by
    refine sites_afterRegistration_of_mem ((h.mem_addresses_iff _).mpr ?_) (by simp [hfound])
    change "" ∈ ["a", "b", "c", ""]
    simp
  obtain ⟨ps, d, hps⟩ := afterRegistration_eq w S
  exact ⟨by rw [hps]; exact h.root, by rw [hps]; exact h.settings, fun site => by rw [hsites, h.sites]⟩

/-- The second attempt is made when all modules are there. -/
theorem configure_of_retried_late : ∃ ps d T₀ v T v' T',
    exec configure (late, trioSession ByteArray.empty) =
      (.error (.unknownModule "b" (some ":a")), (trioWith ps d, T₀)) ∧
    exec configure (lateAll ps d, T₀) = (.ok (), (v, T)) ∧
    exec configure (trioAll none, trioSession ByteArray.empty) = (.ok (), (v', T')) ∧
    (∀ address, (v'.get address).map Project.coordinate = (v.get address).map Project.coordinate) ∧
    ∀ address masked, (exec (render address masked) (v', T')).1 =
      (exec (render address masked) (v, T)).1 := by
  obtain ⟨ps, d, T₀, hfiles, hrefused⟩ := exec_configure_late
  have hsites : (trioWith ps d).sites = [("a", ⟨.root, ["a"]⟩), ("", ⟨.root, ["w"]⟩)] := by
    obtain ⟨d', hregistered⟩ := afterRegistration_late
    rw [(undisturbed_configure prepared_late.fresh.unconfigured hrefused).sites, hregistered]
    rfl
  have hretried : (lateAll ps d).Retried T₀.files := by
    have hlate : late.Retried (trio ByteArray.empty) := .registered (.created exec_create_trio) "a" _
    exact hfiles ▸ .registered (.registered (.refused hlate rfl hrefused) "b" _) "c" _
  obtain ⟨r, ⟨v, T⟩, hrun⟩ : ∃ r st, exec configure (lateAll ps d, T₀) = (r, st) := ⟨_, _, rfl⟩
  have hordered : Reordered (trioAll none) v :=
    (reordered_afterRegistration (reordered_lateAll hsites) hfiles).trans
      (undisturbed_configure hretried.unconfigured hrun).reordered
  have hok : r = .ok () := by
    rw [Retried.isOk_configure_iff hretried hrun, hfiles]
    intro site hsite
    rw [hordered.accepts_iff]
    exact (legible_trio none contents_edited.1).accepts site ((hordered.sites site).mp hsite)
  subst hok
  have hsame : (trioSession ByteArray.empty).files = T₀.files := hfiles.symm
  obtain ⟨v', T', hrun', -, hcoordinates, hrender⟩ := configure_of_retried hretried hrun
    prepared_trioAll hordered.root.symm hordered.settings.symm
    (fun site => (hordered.sites site).symm) hsame
  exact ⟨ps, d, T₀, v, T, v', T', hrefused, hrun, hrun', hcoordinates, fun address masked =>
    hrender address masked _ _⟩

end Workspace

end ModulePins
