import ModulePins.Proofs.ModuleFile.Valid
import ModulePins.Proofs.Workspace.Dependence
import ModulePins.Proofs.Workspace.Modules

/-!
# The order of registration

Modules may be registered before a workspace is configured, and nobody should have to think about the
order. Registering adds a module at an address that is free, so as a set the modules do not depend on
the order, and neither does what a walk adds to them. Whether configuring succeeds can be said of
that set: every module file that is there has to be valid, with standard pins from the catalog and
references to modules.

A module without a module file is no obstacle, whether it was found or registered by hand.

## Main definitions

* `Workspace.registerEach` — registering in a row
* `Workspace.Reordered` — the same modules, perhaps in another order
* `Workspace.Accepts` — what configuring asks of a directory
* `Workspace.parentAddresses` — what a module inherits from

## Main results

* `Workspace.isOk_configure_iff` — when configuring succeeds
* `Workspace.configure_of_perm` — the order of registration does not matter
-/

namespace ModulePins

namespace Workspace

open ModulePins.Task

variable {w w' w₀ v v' : Workspace} {S S' S₀ S₁ T T' : Session} {p : Project} {files : FileStore}
  {r r' : Except Fault Unit} {directory : Path} {settings? : Option Settings} {inMemory : Bool}
  {l l' : List (String × Option Path)} {a : String}

/-! ### Registering in a row -/

/-- Registers modules one after the other, each by address and directory. -/
def registerEach (w : Workspace) (l : List (String × Option Path)) : Workspace :=
  l.foldl (fun w s => (w.register s.1 s.2).1) w

theorem Prepared.registerEach (h : w.Prepared) (l : List (String × Option Path)) :
    (w.registerEach l).Prepared := by
  induction l generalizing w with
  | nil => exact h
  | cons s l ih => exact ih (h.registered s.1 s.2)

theorem registerEach_eq (w : Workspace) (l : List (String × Option Path)) :
    ∃ projects, w.registerEach l = { w with projects } := by
  induction l generalizing w with
  | nil => exact ⟨_, rfl⟩
  | cons s l ih =>
    obtain ⟨ps, hps⟩ := register_eq w s.1 s.2
    obtain ⟨qs, hqs⟩ := ih (w.register s.1 s.2).1
    exact ⟨qs, hqs.trans (by rw [hps])⟩

theorem siteOf_congr (hroot : w'.root = w.root) (hsettings : w'.settings = w.settings) (a : String)
    (d : Option Path) : w'.siteOf a d = w.siteOf a d := by
  simp only [siteOf, normalize, directoryOf, hroot, hsettings]

/-- Modules with addresses of their own are all registered. -/
theorem sites_registerEach (hnodup : (l.map fun s => w.normalize s.1).Nodup)
    (hnew : ∀ s ∈ l, w.normalize s.1 ∉ w.addresses) :
    (w.registerEach l).sites = w.sites ++ l.map fun s => w.siteOf s.1 s.2 := by
  induction l generalizing w with
  | nil => simp [registerEach]
  | cons s l ih =>
    obtain ⟨hs, hl⟩ := List.forall_mem_cons.mp hnew
    rw [List.map_cons, List.nodup_cons] at hnodup
    have hstep := sites_register w s.1 s.2
    rw [if_neg hs] at hstep
    obtain ⟨ps, hps⟩ := register_eq w s.1 s.2
    change ((w.register s.1 s.2).1.registerEach l).sites = _
    generalize (w.register s.1 s.2).1 = w₁ at hstep hps ⊢
    have hnormal (a : String) : w₁.normalize a = w.normalize a := by rw [hps]; rfl
    have hsite (a : String) (d : Option Path) : w₁.siteOf a d = w.siteOf a d :=
      siteOf_congr (by rw [hps]) (by rw [hps]) a d
    have haddresses : w₁.addresses = w.addresses ++ [w.normalize s.1] := by
      rw [← map_fst_sites, hstep, List.map_append, map_fst_sites]
      rfl
    have hfree : ∀ s' ∈ l, w₁.normalize s'.1 ∉ w₁.addresses := by
      intro s' hs' hmem
      rw [hnormal, haddresses, List.mem_append, List.mem_singleton] at hmem
      rcases hmem with hmem | hsame
      · exact hl s' hs' hmem
      · exact hnodup.1 (List.mem_map.mpr ⟨s', hs', hsame⟩)
    rw [ih (by simpa only [hnormal] using hnodup.2) hfree, hstep]
    simp [hsite]

/-! ### The same modules in another order -/

/-- The same modules, perhaps in another order. -/
structure Reordered (w w' : Workspace) : Prop where
  root : w'.root = w.root
  settings : w'.settings = w.settings
  sites : ∀ site, site ∈ w'.sites ↔ site ∈ w.sites

theorem Reordered.symm (h : Reordered w w') : Reordered w' w :=
  ⟨h.root.symm, h.settings.symm, fun site => (h.sites site).symm⟩

theorem Reordered.trans {w'' : Workspace} (h : Reordered w w') (h' : Reordered w' w'') :
    Reordered w w'' :=
  ⟨h'.root.trans h.root, h'.settings.trans h.settings, fun site => (h'.sites site).trans (h.sites site)⟩

theorem Undisturbed.reordered (h : Undisturbed (w, S) (w', S')) : Reordered w w' :=
  ⟨h.root, h.settings, fun site => by rw [h.sites]⟩

theorem Reordered.mem_addresses_iff (h : Reordered w w') (a : String) :
    a ∈ w'.addresses ↔ a ∈ w.addresses := by
  simp only [← map_fst_sites, List.mem_map, h.sites]

theorem Reordered.register (h : Reordered w w') (a : String) (d : Option Path) :
    Reordered (w.register a d).1 (w'.register a d).1 := by
  obtain ⟨ps, hps⟩ := register_eq w a d
  obtain ⟨ps', hps'⟩ := register_eq w' a d
  refine ⟨by rw [hps, hps']; exact h.root, by rw [hps, hps']; exact h.settings, fun site => ?_⟩
  have hnormal : w'.normalize a = w.normalize a := by rw [normalize, normalize, h.settings]
  rw [sites_register, sites_register, hnormal, siteOf_congr h.root h.settings]
  by_cases hmem : w.normalize a ∈ w.addresses
  · rw [if_pos hmem, if_pos ((h.mem_addresses_iff _).mpr hmem)]
    exact h.sites site
  · rw [if_neg hmem, if_neg (mt (h.mem_addresses_iff _).mp hmem), List.mem_append, List.mem_append,
      h.sites]

theorem Reordered.registerAll (h : Reordered w w') (ms : List FoundModule) :
    Reordered (w.registerAll ms).1 (w'.registerAll ms).1 := by
  induction ms generalizing w w' with
  | nil => exact h
  | cons m ms ih => exact ih (h.register m.address (some m.directory))

/-- What a walk adds does not depend on the order. -/
theorem Reordered.afterRegistration (h : Reordered w w') (hfiles : S'.files = S.files) :
    Reordered (w.afterRegistration S) (w'.afterRegistration S') := by
  have hroot : Reordered (w.register Address.root (some w.root)).1
      (w'.register Address.root (some w'.root)).1 := by
    rw [h.root]
    exact h.register _ _
  rw [Workspace.afterRegistration, Workspace.afterRegistration,
    found_congr hroot.root hroot.settings hfiles]
  have hwalked (d : Option Discovery) :
      Reordered { (w.register Address.root (some w.root)).1 with discovery := d }
        { (w'.register Address.root (some w'.root)).1 with discovery := d } :=
    ⟨hroot.root, hroot.settings, hroot.sites⟩
  exact (hwalked _).registerAll _

/-- Modules with addresses of their own may be registered in any order. -/
theorem reordered_registerEach (hprojects : w.projects = [])
    (hnodup : (l.map fun s => w.normalize s.1).Nodup) (hperm : l'.Perm l) :
    Reordered (w.registerEach l) (w.registerEach l') := by
  have hnone (l : List (String × Option Path)) : ∀ s ∈ l, w.normalize s.1 ∉ w.addresses := by
    simp [addresses, hprojects]
  obtain ⟨ps, hps⟩ := registerEach_eq w l
  obtain ⟨ps', hps'⟩ := registerEach_eq w l'
  refine ⟨by rw [hps, hps'], by rw [hps, hps'], fun site => ?_⟩
  rw [sites_registerEach hnodup (hnone l),
    sites_registerEach ((hperm.map _).nodup_iff.mpr hnodup) (hnone l'), List.mem_append,
    List.mem_append, (hperm.map _).mem_iff]

/-! ### When configuring succeeds -/

/-- What configuring asks of the directory of a module: a module file that is there is valid, names
standard pins of the catalog, and refers to modules. -/
def Accepts (w : Workspace) (files : FileStore) (directory : Path) : Prop :=
  files.isFile? (directory / w.settings.moduleFile.val) = .ok false ∨
    ∃ file, ModuleFile.contents files (directory / w.settings.moduleFile.val) = .ok file ∧
      (∀ mnemonic ∈ file.mnemonics, (Catalog.lookup? mnemonic).isSome) ∧
      ∀ r ∈ file.references, w.normalize r ∈ w.addresses

theorem Reordered.accepts_iff (h : Reordered w w') (files : FileStore) (directory : Path) :
    w'.Accepts files directory ↔ w.Accepts files directory := by
  simp only [Accepts, h.mem_addresses_iff, normalize, h.settings]

/-- What can be read, and refers to modules, is accepted, whatever was declared before. -/
theorem accepts_of_answer (hanswer : (p.reading (w.filePath p) files none).answer = .ok (w.fileOf files p))
    (hrefer : ∀ r ∈ (w.readProject files p).references, w.normalize r ∈ w.addresses) :
    w.Accepts files p.directory := by
  rw [readProject_eq hanswer] at hrefer
  unfold Project.reading at hanswer
  cases hisFile : files.isFile? (w.filePath p) with
  | error e =>
    rw [hisFile] at hanswer
    cases hanswer
  | ok isFile =>
    rw [hisFile] at hanswer
    cases isFile with
    | false => exact .inl hisFile
    | true =>
      cases hcontents : ModuleFile.contents files (w.filePath p) with
      | error f =>
        simp [hcontents] at hanswer
      | ok file =>
        have hat : w.fileOf files p = some file := by
          rw [fileOf, ModuleFile.at?, hcontents]
          rfl
        rw [hat] at hrefer
        refine .inr ⟨file, hcontents, ?_, hrefer⟩
        rw [← ModuleFile.fault_apply_eq_none_iff (ModuleFile.clean_of_contents hcontents)
          p.descriptor]
        cases hfault : (file.apply p.descriptor).fault with
        | none => rfl
        | some f => simp [hcontents, hfault] at hanswer

/-- A module file that is accepted, if it is there. -/
theorem fileOf_of_accepts (h : w.Accepts files p.directory) :
    (files.isFile? (w.filePath p) = .ok false ∧ w.fileOf files p = none) ∨
      ∃ file, ModuleFile.contents files (w.filePath p) = .ok file ∧ w.fileOf files p = some file ∧
        (∀ d, (file.apply d).fault = none) ∧ ∀ r ∈ file.references, w.normalize r ∈ w.addresses := by
  rcases h with hmissing | ⟨file, hcontents, hcatalog, hrefer⟩
  · refine .inl ⟨hmissing, ?_⟩
    rw [fileOf, ModuleFile.at?, ModuleFile.contents, filePath, hmissing]
    rfl
  · refine .inr ⟨file, hcontents, ?_, fun d => ?_, hrefer⟩
    · rw [fileOf, ModuleFile.at?, filePath, hcontents]
      rfl
    · exact (ModuleFile.fault_apply_eq_none_iff (ModuleFile.clean_of_contents hcontents) d).mpr hcatalog

/-- What is accepted can be read, whatever was declared before. -/
theorem answer_of_accepts (h : w.Accepts files p.directory) :
    (p.reading (w.filePath p) files none).answer = .ok (w.fileOf files p) := by
  rcases fileOf_of_accepts h with ⟨hmissing, -⟩ | ⟨file, hcontents, -, hfault, -⟩
  · exact answer_eq_fileOf (Project.answer_of_missing hmissing)
  · exact answer_eq_fileOf (Project.answer_of_contents hcontents (hfault p.descriptor))

/-- What can be read of a module that has just been registered. -/
theorem answer_iff (hblank : p = w.blank p.address p.directory) :
    ((p.reading (w.filePath p) files none).answer = .ok (w.fileOf files p) ∧
        ∀ r ∈ (w.readProject files p).references, w.normalize r ∈ w.addresses) ↔
      w.Accepts files p.directory := by
  refine ⟨fun ⟨hanswer, hrefer⟩ => accepts_of_answer hanswer hrefer, fun h => ?_⟩
  have hanswer := answer_of_accepts h
  refine ⟨hanswer, ?_⟩
  rw [readProject_eq hanswer]
  rcases fileOf_of_accepts h with ⟨-, hnone⟩ | ⟨file, -, hsome, -, hrefer⟩
  · rw [hnone, hblank]
    simp [Project.given, Project.unnamed, blank]
  · rw [hsome]
    exact hrefer

theorem legible_iff (hfresh : w.Fresh) :
    w.Legible files ↔ ∀ site ∈ w.sites, w.Accepts files site.2 := by
  constructor
  · intro h site hsite
    obtain ⟨p, hp, -, hdirectory⟩ := mem_sites_iff.mp hsite
    rw [← hdirectory]
    exact (answer_iff (hfresh.blank p hp)).mp ⟨h.read p hp, h.refer p hp⟩
  · intro h
    have haccepts (p : Project) (hp : p ∈ w.projects) : w.Accepts files p.directory :=
      h (p.address, p.directory) (mem_sites_iff.mpr ⟨p, hp, rfl, rfl⟩)
    have hall (p : Project) (hp : p ∈ w.projects) :=
      (answer_iff (hfresh.blank p hp)).mpr (haccepts p hp)
    exact ⟨fun p hp => (hall p hp).1, fun p hp => (hall p hp).2⟩

/-- **Configuring succeeds** exactly if the directories of all modules are as they have to be. -/
theorem isOk_configure_iff (hfresh : w.Fresh) (hrun : exec configure (w, S) = (r, (v, T))) :
    r = .ok () ↔ ∀ site ∈ v.sites, v.Accepts S.files site.2 := by
  have hrest := undisturbed_configure hfresh.unconfigured hrun
  have hconditions : (∀ site ∈ v.sites, v.Accepts S.files site.2) ↔
      (w.afterRegistration S).Legible S.files := by
    rw [legible_iff (hfresh.afterRegistration S), hrest.sites]
    simp only [hrest.reordered.accepts_iff]
  rw [hconditions]
  constructor
  · rintro rfl
    exact (legible_of_configure hfresh.consistent hfresh.unconfigured hrun).1
  · intro hlegible
    obtain ⟨log, hdone⟩ := exec_configure_of_legible hfresh.consistent hfresh.unconfigured hlegible
    exact congrArg Prod.fst (hrun.symm.trans hdone)

/-! ### What a module inherits from -/

/-- The addresses of the modules that a module inherits from, one for each link. -/
def parentAddresses (w : Workspace) (p : Project) : List (Option String) :=
  p.descriptor.parents.map fun i => w.projects[i]?.map Project.address

/-- The references in the module file of a module. -/
def referencesOf (w : Workspace) (files : FileStore) (p : Project) : List String :=
  ((w.fileOf files p).map ModuleFile.references).getD []

theorem map_address_targets {rs : List String} (h : ∀ r ∈ rs, w.normalize r ∈ w.addresses) :
    ((w.targets rs).map fun i => w.projects[i]?.map Project.address) =
      rs.map fun r => some (w.normalize r) := by
  induction rs with
  | nil => rfl
  | cons r rs ih =>
    obtain ⟨hr, hrs⟩ := List.forall_mem_cons.mp h
    obtain ⟨i, hi⟩ : ∃ i, w.target? r = some i := by
      rw [← Option.isSome_iff_exists, target?, position?, List.findIdx?_isSome]
      simpa [addresses] using hr
    obtain ⟨p, hp, haddress⟩ := exists_of_position? hi
    have ih := ih hrs
    simp only [targets] at ih ⊢
    simp [hi, hp, haddress, ih]

/-- A module inherits from the modules that its file refers to, one for each reference. -/
theorem SetUp.parentAddresses_eq (h : v.SetUp files) (hp : p ∈ v.projects) :
    v.parentAddresses p = (v.referencesOf files p).map fun r => some (v.normalize r) := by
  obtain ⟨-, -, hparents, hreferences⟩ := given_blank v p.address p.directory (v.filePath p)
    (v.rootFile files) (v.fileOf files p)
  have hmade := h.made p hp
  have hrefer := h.refer p hp
  generalize (v.blank p.address p.directory).given (v.filePath p) (v.rootFile files)
    (v.fileOf files p) = g at hmade hparents hreferences
  have hrefs : v.referencesOf files p = g.references := hreferences.symm
  rw [hmade, linked, Project.references_refer] at hrefer
  rw [parentAddresses, hrefs, ← map_address_targets hrefer]
  congr 1
  rw [hmade, linked, Project.descriptor_refer, hparents, List.nil_append]

/-! ### Two orders -/

/-- A module has a module with the same place in the other order. -/
theorem Reordered.exists_find? (h : Reordered v v') (hconsistent : v'.Consistent)
    (hp : p ∈ v.projects) : ∃ q ∈ v'.projects, v'.find? p.address = some q ∧ q.address = p.address ∧
      q.directory = p.directory := by
  obtain ⟨q, hq, haddress, hdirectory⟩ := mem_sites_iff.mp
    ((h.sites (p.address, p.directory)).mpr (mem_sites_iff.mpr ⟨p, hp, rfl, rfl⟩))
  have haddress' : q.address = p.address := haddress
  exact ⟨q, hq, haddress' ▸ hconsistent.find?_eq hq, haddress', hdirectory⟩

theorem Reordered.fileOf_eq (h : Reordered v v') {q : Project} (hdirectory : q.directory = p.directory)
    (files : FileStore) : v'.fileOf files q = v.fileOf files p := by
  rw [fileOf, fileOf, filePath, filePath, hdirectory, h.settings]

theorem Reordered.moduleAt_eq (h : Reordered v v') (hconsistent : v'.Consistent) (files : FileStore)
    (a : String) : v'.moduleAt files a = v.moduleAt files a := by
  rw [moduleAt, moduleAt]
  cases hp : v.find? a with
  | none =>
    have hnot : v'.find? a = none :=
      find?_eq_none_iff.mpr (mt (h.mem_addresses_iff a).mp (find?_eq_none_iff.mp hp))
    rw [hnot, Option.bind_none, Option.bind_none]
  | some p =>
    have haddress : p.address = a := address_of_find? hp
    obtain ⟨q, -, hq, -, hdirectory⟩ := h.exists_find? hconsistent (List.mem_of_find?_eq_some hp)
    rw [← haddress, hq, Option.bind_some, Option.bind_some, h.fileOf_eq hdirectory]

theorem Reordered.agreeFrom (h : Reordered v v') (hsetUp : v.SetUp files) (hsetUp' : v'.SetUp files)
    (a : String) : AgreeFrom a v v' files files := by
  have hmodules := h.moduleAt_eq hsetUp'.consistent files
  exact ⟨hsetUp, hsetUp', h.settings, h.sites, by rw [rootFile, hmodules], by rw [rootFile, hmodules],
    fun b _ => hmodules b⟩

/-- A module in two orders: its coordinate and what it inherits from are the same. -/
theorem Reordered.coordinate_eq (h : Reordered v v') (hsetUp : v.SetUp files)
    (hsetUp' : v'.SetUp files) (hp : p ∈ v.projects) :
    ∃ q ∈ v'.projects, q.address = p.address ∧ q.directory = p.directory ∧
      q.coordinate = p.coordinate ∧ v'.parentAddresses q = v.parentAddresses p := by
  obtain ⟨q, hq, hfind, haddress, hdirectory⟩ := h.exists_find? hsetUp'.consistent hp
  obtain ⟨g, q', hfind', hg, hg', -⟩ :=
    (h.agreeFrom hsetUp hsetUp' p.address).pair .refl (hsetUp.consistent.find?_eq hp)
  obtain rfl : q = q' := Option.some.inj (hfind.symm.trans hfind')
  have hcoordinate : q.coordinate = p.coordinate := by
    rw [hg, hg', linked, linked, Project.coordinate_refer, Project.coordinate_refer]
  refine ⟨q, hq, haddress, hdirectory, hcoordinate, ?_⟩
  have hnormal : v'.normalize = v.normalize := funext fun r => by rw [normalize, normalize, h.settings]
  rw [hsetUp'.parentAddresses_eq hq, hsetUp.parentAddresses_eq hp, referencesOf, referencesOf,
    h.fileOf_eq hdirectory, hnormal]

/-- **The order of registration does not matter.** Modules with addresses of their own are registered
in a workspace that has just been created, in one of two orders, and then it is configured. The same
modules are registered then, those that were given among them, and configuring succeeds in the one
order exactly if it does in the other. It succeeds exactly if every module file that is there is
valid, names standard pins of the catalog only, and refers to registered modules only. In this case a
module has the same coordinate in both, inherits from the modules that its file refers to, one for
each reference and in their order, and is rendered the same, masked or not. -/
theorem configure_of_perm
    (hcreated : exec (create directory settings? inMemory) S₀ = (.ok w₀, S₁))
    (hnodup : (l.map fun s => w₀.normalize s.1).Nodup) (hperm : l'.Perm l)
    (hfiles : S'.files = S.files)
    (hrun : exec configure (w₀.registerEach l, S) = (r, (v, T)))
    (hrun' : exec configure (w₀.registerEach l', S') = (r', (v', T'))) :
    (∀ s ∈ l, w₀.siteOf s.1 s.2 ∈ v.sites) ∧ (∀ site, site ∈ v'.sites ↔ site ∈ v.sites) ∧
    (r = .ok () ↔ r' = .ok ()) ∧
    (r = .ok () ↔ ∀ site ∈ v.sites, v.Accepts S.files site.2) ∧
    (r = .ok () → ∀ p ∈ v.projects, ∃ q ∈ v'.projects, q.address = p.address ∧
      q.directory = p.directory ∧ q.coordinate = p.coordinate ∧
      v'.parentAddresses q = v.parentAddresses p ∧
      v.parentAddresses p = (v.referencesOf S.files p).map fun r => some (v.normalize r)) ∧
    (r = .ok () → ∀ address masked X X', (exec (render address masked) (v', X')).1 =
      (exec (render address masked) (v, X)).1) := by
  have hprojects := eq_nil_of_create hcreated
  have hprepared := (Prepared.created hcreated).registerEach l
  have hprepared' := (Prepared.created hcreated).registerEach l'
  have hrest := undisturbed_configure hprepared.fresh.unconfigured hrun
  have hrest' := undisturbed_configure hprepared'.fresh.unconfigured hrun'
  have hregistered := (reordered_registerEach hprojects hnodup hperm).afterRegistration hfiles
  have hordered : Reordered v v' :=
    (hrest.reordered.symm.trans hregistered).trans hrest'.reordered
  have hok := isOk_configure_iff hprepared.fresh hrun
  have hok' := isOk_configure_iff hprepared'.fresh hrun'
  rw [hfiles] at hok'
  have hsame : (r = .ok () ↔ r' = .ok ()) := by
    rw [hok, hok']
    simp only [hordered.sites, hordered.accepts_iff]
  have hsetUps (h : r = .ok ()) : v.SetUp S.files ∧ v'.SetUp S.files := by
    have h' := hsame.mp h
    subst h h'
    have hsetUp := hprepared.fresh.setUp hrun
    have hsetUp' := hprepared'.fresh.setUp hrun'
    rw [hrest.files] at hsetUp
    rw [hrest'.files, hfiles] at hsetUp'
    exact ⟨hsetUp, hsetUp'⟩
  refine ⟨fun s hs => ?_, hordered.sites, hsame, hok, fun h p hp => ?_, fun h address masked X X' => ?_⟩
  · have hnone : ∀ s ∈ l, w₀.normalize s.1 ∉ w₀.addresses := by simp [addresses, hprojects]
    rw [hrest.sites]
    refine (sites_prefix_afterRegistration _ S).subset ?_
    rw [sites_registerEach hnodup hnone]
    exact List.mem_append_right _ (List.mem_map_of_mem hs)
  · obtain ⟨hsetUp, hsetUp'⟩ := hsetUps h
    obtain ⟨q, hq, haddress, hdirectory, hcoordinate, hparents⟩ :=
      hordered.coordinate_eq hsetUp hsetUp' hp
    exact ⟨q, hq, haddress, hdirectory, hcoordinate, hparents, hsetUp.parentAddresses_eq hp⟩
  · obtain ⟨hsetUp, hsetUp'⟩ := hsetUps h
    rw [exec_render_eq, exec_render_eq, (hordered.agreeFrom hsetUp hsetUp' _).rendering rfl]

theorem configure_of_perm_trio : ∃ v T v' T',
    exec configure ((trioWith [] none).registerEach [("a", some ⟨.root, ["a"]⟩),
      ("b", some ⟨.root, ["b"]⟩), ("c", some ⟨.root, ["c"]⟩)], trioSession ByteArray.empty) =
        (.ok (), (v, T)) ∧
    exec configure ((trioWith [] none).registerEach [("c", some ⟨.root, ["c"]⟩),
      ("b", some ⟨.root, ["b"]⟩), ("a", some ⟨.root, ["a"]⟩)], trioSession ByteArray.empty) =
        (.ok (), (v', T')) ∧
    (∃ p ∈ v.projects, ∃ q ∈ v'.projects, p.address = "a" ∧ q.address = "a" ∧
      v.parentAddresses p = [some "b"] ∧ v'.parentAddresses q = [some "b"]) ∧
    ∀ address masked, (exec (render address masked) (v', T')).1 =
      (exec (render address masked) (v, T)).1 := by
  obtain ⟨hfile, -, -⟩ := contents_trio ByteArray.empty
  obtain ⟨d, log, hdone⟩ := configure_trio contents_edited.1
  obtain ⟨r', ⟨v', T'⟩, hdone'⟩ : ∃ r' st, exec configure ((trioWith [] none).registerEach
      [("c", some ⟨.root, ["c"]⟩), ("b", some ⟨.root, ["b"]⟩), ("a", some ⟨.root, ["a"]⟩)],
        trioSession ByteArray.empty) = (r', st) := ⟨_, _, rfl⟩
  have hnormal (a : String) : (trioWith [] none).normalize a = Address.normalize ":" a := rfl
  have hletters : Address.normalize ":" "a" = "a" ∧ Address.normalize ":" "b" = "b" ∧
      Address.normalize ":" "c" = "c" := by
    refine ⟨?_, ?_, ?_⟩ <;> cbv
  have hrun : exec configure ((trioWith [] none).registerEach [("a", some ⟨.root, ["a"]⟩),
      ("b", some ⟨.root, ["b"]⟩), ("c", some ⟨.root, ["c"]⟩)], trioSession ByteArray.empty) =
        (.ok (), ((trioAll d).whole (trio ByteArray.empty),
          { trioSession ByteArray.empty with log })) := by
    rw [← hdone, ← register_trio]
    rfl
  have hperm : [("c", some (⟨.root, ["c"]⟩ : Path)), ("b", some ⟨.root, ["b"]⟩),
      ("a", some ⟨.root, ["a"]⟩)].Perm
        [("a", some ⟨.root, ["a"]⟩), ("b", some ⟨.root, ["b"]⟩), ("c", some ⟨.root, ["c"]⟩)] := by
    decide
  obtain ⟨hsites, -, hsame, -, hmodules, hrender⟩ := configure_of_perm exec_create_trio
    (by simp [hnormal, hletters]) hperm rfl hrun hdone'
  obtain rfl := hsame.mp rfl
  have ha := hsites ("a", some ⟨.root, ["a"]⟩) (by simp)
  rw [siteOf, hnormal, hletters.1, Option.getD_some] at ha
  obtain ⟨p, hp, haddress, hdirectory⟩ := mem_sites_iff.mp ha
  obtain ⟨q, hq, haddress', -, -, hparents, hreferences⟩ := hmodules rfl p hp
  have hpath : ((trioAll d).whole (trio ByteArray.empty)).filePath p =
      ⟨.root, ["a", "water.yaml"]⟩ := by
    rw [filePath, hdirectory]
    exact (filePath_trio d).1
  have hrefers : ((trioAll d).whole (trio ByteArray.empty)).parentAddresses p = [some "b"] := by
    rw [hreferences, referencesOf, fileOf, hpath, ModuleFile.at?]
    change ((((ModuleFile.contents (trio ByteArray.empty) _).toOption).map _).getD []).map _ = _
    rw [hfile]
    simp [Except.toOption, trioFile, ModuleFile.references, (normalize_trio d ByteArray.empty).2]
  exact ⟨_, _, v', T', hrun, hdone', ⟨p, hp, q, hq, haddress, haddress'.trans haddress, hrefers,
    hparents.trans hrefers⟩, fun address masked => hrender rfl address masked _ _⟩

end Workspace

end ModulePins
