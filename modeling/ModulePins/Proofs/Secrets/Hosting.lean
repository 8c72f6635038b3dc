import ModulePins.Proofs.Secrets.Declared
import ModulePins.Proofs.Secrets.Files
import ModulePins.Proofs.Secrets.Resolved
import ModulePins.Proofs.Workspace.Loading

/-!
# Setting up without secrets

Two workspaces are set up on two stores that differ in secrets. Step by step they stay the same but
for secrets, and so do the answers; the records are the same.

Most steps only pass on what they are given. They commute with masking, and that is all there is to
say about them. Reading module files is the one step at which the stores come in.

Settings are read from a file as well, which is none of those that may differ. For `create` this is
a hypothesis, because nothing in a store says which of its files are settings.

## Main definitions

* `Session.Alike` — sessions on the two stores
* `Workspace.Alike` — workspaces that are the same but for secrets

## Main results

* `Project.reading_alike` — reading a module's file
* `Workspace.coupled_create`, `Workspace.coupled_configure` — setting a workspace up
-/

namespace ModulePins

open ModulePins.Task

/-- Sessions on the one store and on the other, and otherwise the same. -/
def Session.Alike (s s' : FileStore) (S S' : Session) : Prop :=
  S.files = s ∧ S' = { S with files := s' }

/-- The same module file but for secrets, if there is one. -/
def ModuleFile.Alike (o o' : Option ModuleFile) : Prop :=
  o'.map ModuleFile.masked = o.map ModuleFile.masked

/-- The same workspace but for secrets. -/
def Workspace.Alike (w w' : Workspace) : Prop := w'.masked = w.masked

variable {s s' : FileStore}

/-! ### Sessions -/

namespace Session

variable {α : Type}

theorem coupled_ask {query : FileStore → Except FileError α} (h : query s' = query s) :
    Coupled (Alike s s') Eq (ask query) (ask query) := by
  rintro S _ ⟨hfiles, rfl⟩
  rw [exec_ask, exec_ask, h, hfiles]
  exact ⟨SameEnd.refl _, hfiles, rfl⟩

theorem coupled_report (rs : List Record) : Coupled (Alike s s') Eq (report rs) (report rs) := by
  rintro S _ ⟨hfiles, rfl⟩
  exact ⟨.ok rfl, hfiles, rfl⟩

theorem coupled_get : Coupled (Alike s s') (Alike s s') get get := fun _ _ h => ⟨.ok h, h⟩

theorem coupled_realPath (h : s.SameShape s') (p : Path) :
    Coupled (Alike s s') (fun q q' => q' = q ∧ s.realPath p = .ok q) (realPath p) (realPath p) := by
  rintro S _ ⟨hfiles, rfl⟩
  subst hfiles
  rcases hreal : S.files.realPath p with e | q
  · have hreal' : FileStore.realPath s' p = .error e := (h.realPath p).trans hreal
    rw [realPath, exec_bind, exec_bind, exec_get, exec_get]
    simp only [hreal, hreal']
    exact ⟨.error _, rfl, rfl⟩
  · have hreal' : FileStore.realPath s' p = .ok q := (h.realPath p).trans hreal
    rw [exec_realPath_ok hreal, exec_realPath_ok (S := { S with files := s' }) hreal']
    exact ⟨.ok ⟨rfl, rfl⟩, rfl, rfl⟩

end Session

/-! ### Settings -/

namespace Settings

variable {p : Path}

theorem coupled_mappingFile (h : s.SameShape s') (hread : s'.readBytes p = s.readBytes p) :
    Coupled (Session.Alike s s') Eq (MappingFile.load .parsing p) (MappingFile.load .parsing p) := by
  have hcontents : MappingFile.contents .parsing s' p = MappingFile.contents .parsing s p :=
    MappingFile.contents_congr (h.exists? p) (h.isDir? p) hread
  rintro S _ ⟨rfl, rfl⟩
  rw [MappingFile.exec_load, MappingFile.exec_load, MappingFile.notes_congr hcontents, hcontents]
  exact ⟨SameEnd.refl _, rfl, rfl⟩

theorem coupled_loadDefaults : Coupled (Session.Alike s s') Eq loadDefaults loadDefaults := by
  refine Session.coupled_get.bind fun S S' hS => ?_
  rw [hS.2]
  exact (Session.coupled_report _).bind fun _ _ _ => coupled_pure rfl

theorem coupled_overrides? (h : s.SameShape s') (hread : s'.readBytes p = s.readBytes p) :
    Coupled (Session.Alike s s') Eq (overrides? p) (overrides? p) := by
  rw [overrides?]
  refine (Session.coupled_ask (h.exists? p)).bind fun there _ hthere => hthere ▸ ?_
  cases there with
  | true =>
    exact (coupled_mappingFile h hread).bind fun es _ hes => hes ▸ coupled_pure rfl
  | false => exact (Session.coupled_report _).bind fun _ _ _ => coupled_pure rfl

/-- Settings are the same if their file is. -/
theorem coupled_load {root : Path} (h : s.SameShape s')
    (hread : s'.readBytes (overridePath root) = s.readBytes (overridePath root)) :
    Coupled (Session.Alike s s') Eq (load root) (load root) := by
  have hbase (base : List (Value × Value)) : Coupled (Session.Alike s s') Eq
      (do Task.ofExcept (validate base (some (defaultsPath (← get).home).toString)))
      (do Task.ofExcept (validate base (some (defaultsPath (← get).home).toString))) := by
    refine Session.coupled_get.bind fun S S' hS => ?_
    rw [hS.2]
    exact coupled_ofExcept (SameEnd.refl _)
  rw [load, loadFrom]
  refine coupled_loadDefaults.bind fun base _ hsame => hsame ▸ ?_
  refine (coupled_overrides? h hread).bind fun v _ hsame => hsame ▸ ?_
  cases v with
  | none => exact hbase base
  | some v =>
    dsimp only
    split
    · exact hbase base
    · exact (coupled_ofExcept (SameEnd.refl _)).bind fun merged _ hmerged => hmerged ▸
        (Session.coupled_report _).bind fun _ _ _ => coupled_ofExcept (SameEnd.refl _)

end Settings

/-! ### Projects -/

namespace Project

theorem identified_masked (p : Project) (path : Path) (file : ModuleFile)
    (defaults : Option ModuleFile) : p.masked.identified path file.masked
      (defaults.map ModuleFile.masked) = (p.identified path file defaults).masked := by
  rw [identified, identified]
  cases defaults <;> rfl

theorem references_masked (m : ModuleFile) : m.masked.references = m.references := by
  rw [ModuleFile.references, ModuleFile.references, ModuleFile.masked]
  cases m.descriptor <;> rfl

/-- What a module becomes when its file has been read, however far the declarations come. -/
def declared (p : Project) (path : Path) (file : ModuleFile) (defaults : Option ModuleFile) :
    Project :=
  { p.identified path file defaults with descriptor := (file.apply p.descriptor).descriptor }

theorem declared_masked (p : Project) (path : Path) (file : ModuleFile)
    (defaults : Option ModuleFile) : p.masked.declared path file.masked
      (defaults.map ModuleFile.masked) = (p.declared path file defaults).masked := by
  have happly : file.masked.apply p.masked.descriptor = (file.apply p.descriptor).masked :=
    file.apply_masked p.descriptor
  rw [declared, declared, identified_masked, happly]
  rfl

theorem loaded_masked (p : Project) (path : Path) (file : ModuleFile)
    (defaults : Option ModuleFile) : p.masked.loaded path file.masked
      (defaults.map ModuleFile.masked) = (p.loaded path file defaults).masked := by
  change { p.masked.declared path file.masked (defaults.map ModuleFile.masked) with
    references := file.masked.references } = _
  rw [declared_masked, references_masked]
  rfl

/-- **Reading a module's file** from stores that are alike. -/
theorem reading_alike (h : s.Alike s') {p p' : Project} (hp : p'.masked = p.masked) (path : Path)
    {defaults defaults' : Option ModuleFile} (hdefaults : ModuleFile.Alike defaults defaults') :
    let r := p.reading path s defaults
    let r' := p'.reading path s' defaults'
    SameEnd ModuleFile.Alike r.answer r'.answer ∧ r'.project.masked = r.project.masked ∧
      r'.log = r.log := by
  have hunnamed : p'.unnamed.masked = p.unnamed.masked := congrArg unnamed hp
  obtain ⟨hcontents, hnotes⟩ := h.contents path
  rw [reading, reading, h.sameShape.isFile? path, hnotes]
  rcases s.isFile? path with e | (_ | _)
  · exact ⟨.error _, hunnamed, rfl⟩
  · exact ⟨.ok rfl, hunnamed, rfl⟩
  · dsimp only
    generalize ModuleFile.contents s path = c, ModuleFile.contents s' path = c' at hcontents
    cases hcontents with
    | error f => exact ⟨.error _, hunnamed, rfl⟩
    | @ok m m' hm =>
      have happly : (m'.apply p'.descriptor).masked = (m.apply p.descriptor).masked := by
        rw [← ModuleFile.apply_masked, ← ModuleFile.apply_masked, hm]
        exact congrArg (m.masked.apply ·.descriptor) hp
      have hdeclared : (p'.declared path m' defaults').masked = (p.declared path m defaults).masked := by
        rw [← declared_masked, ← declared_masked, hp, hm, hdefaults]
      have hloaded : (p'.loaded path m' defaults').masked = (p.loaded path m defaults).masked := by
        rw [← loaded_masked, ← loaded_masked, hp, hm, hdefaults]
      obtain ⟨-, hlog, hfault⟩ := ModuleFile.Replayed.mk.inj happly
      dsimp only
      rw [hfault, hlog]
      cases (m.apply p.descriptor).fault with
      | some f => exact ⟨.error _, hdeclared, rfl⟩
      | none => exact ⟨.ok (congrArg some hm), hloaded, rfl⟩

end Project

/-! ### Workspaces -/

namespace Workspace

variable {w w' : Workspace} {i : ℕ}

theorem alike_iff : Alike w w' ↔ w' = { w with projects := w'.projects } ∧
    w'.projects.map Project.masked = w.projects.map Project.masked := by
  obtain ⟨root, settings, cache, projects, discovery, configured⟩ := w
  obtain ⟨root', settings', cache', projects', discovery', configured'⟩ := w'
  rw [Alike, masked, masked, mk.injEq, mk.injEq]
  simp only [true_and]
  constructor
  · rintro ⟨h₁, h₂, h₃, h₄, h₅, h₆⟩
    exact ⟨⟨h₁, h₂, h₃, h₅, h₆⟩, h₄⟩
  · rintro ⟨⟨h₁, h₂, h₃, h₅, h₆⟩, h₄⟩
    exact ⟨h₁, h₂, h₃, h₄, h₅, h₆⟩

theorem Alike.masked_eq (h : Alike w w') : w'.masked = w.masked := h

theorem Alike.projects (h : Alike w w') :
    w'.projects.map Project.masked = w.projects.map Project.masked :=
  congrArg Workspace.projects h.masked_eq

theorem Alike.settings (h : Alike w w') : w'.settings = w.settings :=
  (congrArg Workspace.settings h.masked_eq :)

theorem Alike.root (h : Alike w w') : w'.root = w.root := (congrArg Workspace.root h.masked_eq :)

theorem Alike.configured (h : Alike w w') : w'.configured = w.configured :=
  (congrArg Workspace.configured h.masked_eq :)

theorem Alike.length (h : Alike w w') : w'.projects.length = w.projects.length := by
  simpa using congrArg List.length h.projects

theorem Alike.addresses (h : Alike w w') : w'.addresses = w.addresses := by
  have hmap (w : Workspace) : w.addresses = (w.projects.map Project.masked).map Project.address := by
    rw [Workspace.addresses, List.map_map]
    rfl
  rw [hmap, hmap, h.projects]

theorem Alike.position? (h : Alike w w') (a : String) : w'.position? a = w.position? a := by
  rw [← position?_masked, h, position?_masked]

/-- Projects at the same position are the same but for secrets. -/
theorem Alike.exists_getElem? (h : Alike w w') {p : Project} (hp : w.projects[i]? = some p) :
    ∃ p', w'.projects[i]? = some p' ∧ p'.masked = p.masked := by
  have hget := congrArg (fun ps : List Project => ps[i]?) h.projects
  simp only [List.getElem?_map, hp, Option.map_some] at hget
  exact Option.map_eq_some_iff.mp hget

/-- Other projects in place of the old ones. -/
theorem Alike.of_projects (h : Alike w w') {ps ps' : List Project}
    (hps : ps'.map Project.masked = ps.map Project.masked) :
    Alike { w with projects := ps } { w' with projects := ps' } := by
  refine alike_iff.mpr ⟨?_, hps⟩
  rw [(alike_iff.mp h).1]

theorem Alike.modifyAt (h : Alike w w') {f f' : Project → Project}
    (hf : ∀ p p', w.projects[i]? = some p → w'.projects[i]? = some p' →
      (f' p').masked = (f p).masked) : Alike (w.modifyAt i f) (w'.modifyAt i f') := by
  refine h.of_projects (List.ext_getElem? fun j => ?_)
  have hget := congrArg (fun ps : List Project => ps[j]?) h.projects
  simp only [List.getElem?_map] at hget
  rw [List.getElem?_map, List.getElem?_map]
  change (w'.modifyAt i f').projects[j]?.map _ = (w.modifyAt i f).projects[j]?.map _
  rw [getElem?_modifyAt, getElem?_modifyAt]
  by_cases hij : i = j
  · subst hij
    rw [if_pos rfl, if_pos rfl]
    cases hp : w.projects[i]? with
    | none =>
      rw [hp, Option.map_none, Option.map_eq_none_iff] at hget
      rw [hget]
      rfl
    | some p =>
      obtain ⟨p', hp', -⟩ := h.exists_getElem? hp
      rw [hp']
      exact congrArg some (hf p p' hp hp')
  · simpa [hij] using hget

/-! ### Steps -/

theorem coupled_here : Coupled (Both Alike (Session.Alike s s')) Alike here here := coupled_part

theorem coupled_step {f : Workspace → Workspace × List Record}
    (hf : ∀ w w', Alike w w' → Alike (f w).1 (f w').1 ∧ (f w').2 = (f w).2) :
    Coupled (Both Alike (Session.Alike s s')) Eq (step f) (step f) := by
  rintro ⟨w, S⟩ ⟨w', _⟩ ⟨hw, hfiles, rfl⟩
  obtain ⟨hresult, hlog⟩ := hf w w' hw
  rw [exec_step, exec_step, hlog]
  exact ⟨.ok rfl, hresult, hfiles, rfl⟩

theorem coupled_report (rs : List Record) :
    Coupled (Both Alike (Session.Alike s s')) Eq (Task.report rs) (Task.report rs) :=
  (Session.coupled_report rs).session

theorem exec_loadProject_none (hp : w.projects[i]? = none) (defaults : Option ModuleFile)
    (S : Session) : exec (loadProject defaults i) (w, S) = (.ok none, (w, S)) := by
  rw [loadProject, exec_bind, exec_here]
  dsimp only
  rw [hp]
  rfl

theorem exec_link_none (hp : w.projects[i]? = none) (S : Session) :
    exec (link i) (w, S) = (.ok (), (w, S)) := by
  rw [link, exec_bind, exec_here]
  dsimp only
  rw [hp]
  rfl

theorem Alike.getElem?_none (h : Alike w w') (hp : w.projects[i]? = none) :
    w'.projects[i]? = none := by
  rw [List.getElem?_eq_none_iff] at hp ⊢
  rwa [h.length]

theorem coupled_loadProject (h : s.Alike s') {defaults defaults' : Option ModuleFile}
    (hdefaults : ModuleFile.Alike defaults defaults') (i : ℕ) :
    Coupled (Both Alike (Session.Alike s s')) ModuleFile.Alike (loadProject defaults i)
      (loadProject defaults' i) := by
  rintro ⟨w, S⟩ ⟨w', _⟩ ⟨hw, rfl, rfl⟩
  cases hp : w.projects[i]? with
  | none =>
    rw [exec_loadProject_none hp, exec_loadProject_none (hw.getElem?_none hp)]
    exact ⟨.ok rfl, hw, rfl, rfl⟩
  | some p =>
    obtain ⟨p', hp', hmasked⟩ := hw.exists_getElem? hp
    have hpath : w'.filePath p' = w.filePath p := by
      have hdirectory : p'.directory = p.directory := (congrArg Project.directory hmasked :)
      rw [filePath, filePath, hw.settings, hdirectory]
    obtain ⟨hanswer, hproject, hlog⟩ := Project.reading_alike h hmasked (w.filePath p) hdefaults
    rw [exec_loadProject hp, exec_loadProject hp', hpath]
    refine ⟨hanswer, hw.modifyAt fun _ _ _ _ => hproject, rfl, ?_⟩
    dsimp only
    rw [hlog]

theorem Alike.target? (h : Alike w w') : w'.target? = w.target? :=
  funext (target?_congr h.addresses h.settings)

theorem coupled_link (i : ℕ) :
    Coupled (Both Alike (Session.Alike s s')) Eq (link i) (link i) := by
  rintro ⟨w, S⟩ ⟨w', S'⟩ ⟨hw, hS⟩
  cases hp : w.projects[i]? with
  | none =>
    rw [exec_link_none hp, exec_link_none (hw.getElem?_none hp)]
    exact ⟨.ok rfl, hw, hS⟩
  | some p =>
    obtain ⟨p', hp', hmasked⟩ := hw.exists_getElem? hp
    have hname : p'.descriptor.name = p.descriptor.name :=
      (congrArg (·.descriptor.name) hmasked :)
    have hreferences : p'.references = p.references := (congrArg Project.references hmasked :)
    have hlinked : (w'.linked p').masked = (w.linked p).masked := by
      rw [linked, linked, targets, targets, hw.target?, hreferences]
      exact congrArg (Project.refer · _) hmasked
    have hunknown : w'.unknown? p'.descriptor.name p'.references =
        w.unknown? p.descriptor.name p.references := by
      rw [unknown?, unknown?, hw.target?, hname, hreferences]
    rw [exec_link hp, exec_link hp', hunknown]
    exact ⟨SameEnd.refl _, hw.modifyAt fun _ _ _ _ => hlinked, hS⟩

/-! ### Registration -/

theorem register_masked (w : Workspace) (address : String) (directory : Option Path) :
    w.masked.register address directory =
      ((w.register address directory).1.masked, (w.register address directory).2) := by
  rw [register, register, find?_masked, normalize_masked]
  cases w.find? (w.normalize address) with
  | some p => rfl
  | none =>
    simp only [masked, List.map_append]
    rfl

theorem registerAll_masked (w : Workspace) (ms : List FoundModule) :
    w.masked.registerAll ms = ((w.registerAll ms).1.masked, (w.registerAll ms).2) := by
  induction ms generalizing w with
  | nil => rfl
  | cons m ms ih =>
    rw [registerAll, registerAll, register_masked]
    dsimp only
    rw [ih]

/-- A step that commutes with masking. -/
theorem coupled_step_of_masked {f : Workspace → Workspace × List Record}
    (hf : ∀ w : Workspace, f w.masked = ((f w).1.masked, (f w).2)) :
    Coupled (Both Alike (Session.Alike s s')) Eq (step f) (step f) := by
  refine coupled_step fun w w' hw => ?_
  have hboth : ((f w').1.masked, (f w').2) = ((f w).1.masked, (f w).2) := by
    rw [← hf, ← hf, hw]
  exact Prod.mk.inj hboth

theorem coupled_discover (h : s.SameShape s') (hs : s.Distinct) (hs' : s'.Distinct) :
    Coupled (Both Alike (Session.Alike s s')) Eq discover discover := by
  have hexec (w : Workspace) (S : Session) : exec discover (w, S) =
      (let walked := (WalkRules.ofSettings w.settings).walk (S.files.tree w.root)
       (.ok walked.1, ({ w with discovery := some walked.1 },
        { S with log := S.log ++ walked.2 }))) := rfl
  rintro ⟨w, S⟩ ⟨w', _⟩ ⟨hw, rfl, rfl⟩
  change Alike w w' at hw
  have hwalk : (WalkRules.ofSettings w'.settings).walk (s'.tree w'.root) =
      (WalkRules.ofSettings w.settings).walk (S.files.tree w.root) := by
    rw [hw.settings, hw.root, h.walk hs hs']
  have hnoted (d : Discovery) : Alike { w with discovery := some d } { w' with discovery := some d } :=
    (congrArg (fun v : Workspace => ({ v with discovery := some d } : Workspace)) hw.masked_eq :)
  rw [hexec, hexec, hwalk]
  exact ⟨.ok rfl, hnoted _, rfl, rfl⟩

/-- **Configuring** workspaces that are alike, on stores that are alike. -/
theorem coupled_configure (h : s.Alike s') (hs : s.Distinct) (hs' : s'.Distinct) :
    Coupled (Both Alike (Session.Alike s s')) Eq configure configure := by
  rw [configure]
  refine coupled_here.bind fun w w' hw => ?_
  rw [hw.configured, hw.root]
  split
  · exact coupled_pure rfl
  · refine (coupled_report _).bind fun _ _ _ => ?_
    refine (coupled_step_of_masked fun w => w.register_masked _ _).bind fun _ _ _ => ?_
    refine (coupled_discover h.sameShape hs hs').bind fun found _ hfound => hfound ▸ ?_
    refine (coupled_step_of_masked fun w => w.registerAll_masked _).bind fun _ _ _ => ?_
    refine coupled_here.bind fun v v' hv => ?_
    rw [hv.length, hv.position?]
    refine (coupled_loadProject h rfl _).bind fun defaults defaults' hdefaults => ?_
    refine (coupled_forM _ fun i => (coupled_loadProject h hdefaults i).discard).bind fun _ _ _ => ?_
    refine (coupled_forM _ coupled_link).bind fun _ _ _ => ?_
    exact coupled_step_of_masked fun w => rfl

/-- **Making a workspace**, if its settings are the same. -/
theorem coupled_create (h : s.SameShape s') {directory : Path}
    (hread : ∀ root, s.realPath directory = .ok root →
      s'.readBytes (Settings.overridePath root) = s.readBytes (Settings.overridePath root)) :
    Coupled (Session.Alike s s') Eq (create directory none false) (create directory none false) := by
  rw [create]
  refine (Session.coupled_realPath h directory).bind fun root _ hroot => ?_
  obtain ⟨rfl, hreal⟩ := hroot
  refine (Settings.coupled_load h (hread _ hreal)).bind fun settings _ hsettings => hsettings ▸ ?_
  exact coupled_pure rfl

end Workspace

end ModulePins
