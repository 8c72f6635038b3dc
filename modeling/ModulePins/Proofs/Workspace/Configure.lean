import ModulePins.Proofs.Task
import ModulePins.Proofs.Workspace.Registration
import ModulePins.Workspace.Configure

/-!
# What configuring does

Configuring a workspace for the first time registers the workspace directory and then the modules
that a walk finds. Everything behind that, reading module files and making links, changes what is
known of the modules, but neither where they lie nor any file; `Undisturbed` says what it leaves
alone.

## Main definitions

* `Workspace.Undisturbed` — only the projects' contents and the log may differ

## Main results

* `Workspace.within_loadProject`, `Workspace.within_link` — the later steps disturb nothing
* `Workspace.undisturbed_configure` — where the modules lie after the first configuration
-/

namespace ModulePins

open ModulePins.Task

/-! ### Reading -/

namespace Session

/-- The files are the same. -/
def SameFiles (S S' : Session) : Prop := S'.files = S.files

instance : Std.Refl SameFiles := ⟨fun _ => rfl⟩

instance : IsTrans Session SameFiles := ⟨fun _ _ _ h h' => Eq.trans h' h⟩

theorem within_report (rs : List Record) : Within SameFiles (report rs) := fun _ => rfl

theorem within_ask {α : Type} (query : FileStore → Except FileError α) :
    Within SameFiles (ask query) := fun S => by
  rw [exec_ask]
  exact refl_of SameFiles S

theorem within_readText (p : Path) : Within SameFiles (readText p) := fun S => by
  rw [exec_readText]
  exact refl_of SameFiles S

end Session

theorem MappingFile.within_load (stage : ReadingStage) (p : Path) :
    Within Session.SameFiles (load stage p) := by
  rw [load]
  refine (Session.within_ask _).bind fun there => within_unless fun _ =>
    (Session.within_ask _).bind fun isDir => within_unless fun _ =>
    (Within.tryCatch (Session.within_readText p) fun f => ?_).bind fun text =>
    (within_ofExcept _).bind fun es => (Session.within_report _).bind fun _ => within_pure es
  split <;> exact within_throw _

theorem ModuleFile.within_load (p : Path) : Within Session.SameFiles (load p) := by
  rw [load]
  exact (Session.within_ask _).bind fun there => within_unless fun _ =>
    (MappingFile.within_load _ p).bind fun es => within_ofExcept _

/-- The project with everything that its module file says. -/
def Project.loaded (p : Project) (path : Path) (file : ModuleFile) (defaults : Option ModuleFile) :
    Project :=
  { p.identified path file defaults with
    descriptor := (file.apply p.descriptor).descriptor
    references := file.references }

namespace Workspace

variable {w w' : Workspace} {S S' : Session}

/-! ### What is left alone -/

/-- Only the contents of the projects, the record of a walk, the state of the set-up and the log
may differ. -/
structure Undisturbed (x y : Workspace × Session) : Prop where
  root : y.1.root = x.1.root
  settings : y.1.settings = x.1.settings
  cache : y.1.cache = x.1.cache
  sites : y.1.sites = x.1.sites
  files : y.2.files = x.2.files

instance : Std.Refl Undisturbed := ⟨fun _ => ⟨rfl, rfl, rfl, rfl, rfl⟩⟩

instance : IsTrans (Workspace × Session) Undisturbed := ⟨fun _ _ _ h h' =>
  ⟨h'.root.trans h.root, h'.settings.trans h.settings, h'.cache.trans h.cache,
    h'.sites.trans h.sites, h'.files.trans h.files⟩⟩

theorem within_session {α : Type} {t : Task Session α} (ht : Within Session.SameFiles t) :
    Within Undisturbed (Task.session t : Hosting α) :=
  ht.session fun _ _ _ h => ⟨rfl, rfl, rfl, rfl, h⟩

theorem within_report (rs : List Record) : Within Undisturbed (Task.report rs : Hosting Unit) :=
  within_session (Session.within_report rs)

@[simp] theorem exec_here (w : Workspace) (S : Session) : exec here (w, S) = (.ok w, (w, S)) := rfl

theorem within_here : Within Undisturbed here := fun _ => refl_of Undisturbed _

@[simp] theorem exec_step (f : Workspace → Workspace × List Record) (w : Workspace) (S : Session) :
    exec (step f) (w, S) = (.ok (), ((f w).1, { S with log := S.log ++ (f w).2 })) := rfl

/-- The sites are the same if a project is changed but not moved. -/
theorem sites_modifyAt {f : Project → Project}
    (hf : ∀ p, (f p).address = p.address ∧ (f p).directory = p.directory) (w : Workspace) (i : ℕ) :
    (w.modifyAt i f).sites = w.sites := by
  rw [sites, sites, modifyAt]
  refine List.ext_getElem? fun j => ?_
  rw [List.getElem?_map, List.getElem?_map, List.getElem?_modify]
  split
  · cases w.projects[j]? with
    | none => rfl
    | some p => simp [hf p]
  · simp

theorem within_modifyProject {f : Project → Project}
    (hf : ∀ p, (f p).address = p.address ∧ (f p).directory = p.directory) (i : ℕ) :
    Within Undisturbed (modifyProject i f) := fun ⟨w, S⟩ => by
  rw [modifyProject, exec_step]
  exact ⟨rfl, rfl, rfl, sites_modifyAt hf w i, rfl⟩

/-! ### Reading and linking -/

theorem within_loadProject (defaults : Option ModuleFile) (i : ℕ) :
    Within Undisturbed (loadProject defaults i) := by
  rw [loadProject]
  refine within_here.bind fun w => ?_
  split
  · exact within_pure none
  · rename_i p _
    refine (within_modifyProject (by exact fun _ => ⟨rfl, rfl⟩) i).bind fun _ => within_here.bind fun w => ?_
    refine (within_session (Session.within_ask _)).bind fun isFile => ?_
    split
    · exact within_pure none
    · refine (within_session (ModuleFile.within_load _)).bind fun file =>
        (within_modifyProject (by exact fun _ => ⟨rfl, rfl⟩) i).bind fun _ =>
        (within_modifyProject (by exact fun _ => ⟨rfl, rfl⟩) i).bind fun _ =>
        (within_report _).bind fun _ => ?_
      split
      · exact within_throw _
      · exact (within_modifyProject (by exact fun _ => ⟨rfl, rfl⟩) i).bind fun _ => within_pure _

/-- Reading a module file whose declarations can all be made. -/
theorem exec_loadProject_ok {i : ℕ} {p : Project} {path : Path} {file : ModuleFile} {log : List Record}
    (hp : w.projects[i]? = some p) (hpath : p.directory / w.settings.moduleFile.val = path)
    (hfile : S.files.isFile? path = .ok true)
    (hload : exec (ModuleFile.load path) S = (.ok file, { S with log }))
    (hfault : (file.apply p.descriptor).fault = none) (defaults : Option ModuleFile) :
    ∃ log', exec (loadProject defaults i) (w, S) =
      (.ok (some file), (w.modifyAt i fun _ => p.loaded path file defaults, { S with log := log' })) := by
  have hloaded : (((w.modifyAt i Project.unnamed).modifyAt i (·.identified path file defaults)).modifyAt
      i fun q => { q with descriptor := (file.apply p.descriptor).descriptor }).modifyAt i
        (fun q => { q with references := file.references }) =
      w.modifyAt i fun _ => p.loaded path file defaults := by
    simp only [modifyAt, List.modify_modify_eq]
    congr 1
    refine List.ext_getElem? fun j => ?_
    rw [List.getElem?_modify, List.getElem?_modify]
    split
    · rename_i hij
      rw [← hij, hp]
      rfl
    · rfl
  rw [loadProject, exec_bind, exec_here]
  dsimp only
  rw [hp]
  dsimp only
  rw [exec_bind, modifyProject, exec_step]
  dsimp only
  rw [List.append_nil, exec_bind, exec_here]
  dsimp only
  rw [exec_bind, exec_session, Session.exec_ask]
  have hsettings : (w.modifyAt i Project.unnamed).settings = w.settings := rfl
  rw [hsettings, hpath, hfile]
  simp only [Except.mapError_ok]
  rw [if_neg (by simp), exec_bind, exec_session, hload]
  dsimp only
  rw [exec_bind, modifyProject, exec_step]
  dsimp only
  rw [exec_bind, modifyProject, exec_step]
  dsimp only
  rw [exec_bind, exec_report]
  dsimp only
  rw [hfault]
  dsimp only
  rw [exec_bind, modifyProject, exec_step]
  dsimp only
  rw [exec_pure, hloaded]
  exact ⟨_, rfl⟩

/-- Links are made on descriptors. -/
theorem linkTo_undisturbed (w : Workspace) (i : ℕ) (name : String) (rs : List String)
    (S : Session) : Undisturbed (w, S) ((w.linkTo i name rs).1, S) := by
  induction rs generalizing w with
  | nil => exact refl_of Undisturbed _
  | cons r rs ih =>
    rw [linkTo]
    split
    · exact refl_of Undisturbed _
    · rename_i j _
      let f (p : Project) : Project := { p with descriptor := p.descriptor.inherit j }
      have hkeep (p : Project) : (f p).address = p.address ∧ (f p).directory = p.directory := ⟨rfl, rfl⟩
      have hsites : (w.modifyAt i f).sites = w.sites := sites_modifyAt hkeep w i
      have hlink : Undisturbed (w, S) (w.modifyAt i f, S) := ⟨rfl, rfl, rfl, hsites, rfl⟩
      exact trans_of Undisturbed hlink (ih _)

theorem within_link (i : ℕ) : Within Undisturbed (link i) := fun ⟨w, S⟩ => by
  rw [link, exec_bind, exec_here]
  dsimp only
  split
  · exact refl_of Undisturbed _
  · rename_i p _
    have hlinked := linkTo_undisturbed w i p.descriptor.name p.references S
    rw [exec_bind, exec_setPart]
    dsimp only
    split <;> exact hlinked

/-! ### The phase -/

/-- The walk over the directories of a workspace. -/
def found (w : Workspace) (S : Session) : Discovery :=
  ((WalkRules.ofSettings w.settings).walk (S.files.tree w.root)).1

/-- Walking changes nothing but the record of the walk. -/
theorem exec_discover (w : Workspace) (S : Session) :
    ∃ log, exec discover (w, S) =
      (.ok (found w S), ({ w with discovery := some (found w S) }, { S with log })) :=
  ⟨_, rfl⟩

/-- What happens behind the walk: reading, linking, and the note that it was done. -/
def readAndLink : Hosting Unit := do
  let w ← here
  let positions := List.range w.projects.length
  let rootAt := (w.position? Address.root).getD 0
  let defaults ← loadProject none rootAt
  (positions.filter (· ≠ rootAt)).forM fun i => discard (loadProject defaults i)
  positions.forM link
  step fun w => ({ w with configured := true }, [])

theorem within_readAndLink : Within Undisturbed readAndLink := by
  refine within_here.bind fun w => (within_loadProject _ _).bind fun defaults =>
    (within_forM _ fun i => (within_loadProject _ _).discard).bind fun _ =>
    (within_forM _ within_link).bind fun _ => ?_
  exact fun _ => ⟨rfl, rfl, rfl, rfl, rfl⟩

/-- The workspace when all modules have been registered. -/
def afterRegistration (w : Workspace) (S : Session) : Workspace :=
  let w₁ := (w.register Address.root (some w.root)).1
  ({ w₁ with discovery := some (found w₁ S) }.registerAll (found w₁ S).modules).1

/-- Configuring for the first time: the workspace directory is registered, then the modules found by
a walk, and then the rest is done. -/
theorem exec_configure (hfresh : w.configured = false) (S : Session) :
    ∃ log, exec configure (w, S) = exec readAndLink (w.afterRegistration S, { S with log }) := by
  rw [configure, exec_bind, exec_here]
  dsimp only
  rw [if_neg (by simp [hfresh]), exec_bind, exec_report]
  dsimp only
  rw [exec_bind, exec_step]
  dsimp only
  obtain ⟨log, hdiscover⟩ := exec_discover (w.register Address.root (some w.root)).1
    { S with log := _ }
  rw [exec_bind, hdiscover]
  dsimp only
  rw [exec_bind, exec_step]
  exact ⟨_, rfl⟩

/-- However the first configuration ends, nothing behind the registration moves a module. -/
theorem undisturbed_configure {r : Except Fault Unit} (hfresh : w.configured = false)
    (hrun : exec configure (w, S) = (r, (w', S'))) :
    Undisturbed (w.afterRegistration S, S) (w', S') := by
  obtain ⟨log, hexec⟩ := exec_configure hfresh S
  have hrest := within_readAndLink (w.afterRegistration S, { S with log })
  rw [← hexec, hrun] at hrest
  exact ⟨hrest.root, hrest.settings, hrest.cache, hrest.sites, hrest.files⟩

/-- A workspace that has been configured stays as it is. -/
theorem exec_configure_of_configured (hconfigured : w.configured = true) (S : Session) :
    exec configure (w, S) = (.ok (), (w, S)) := by
  rw [configure, exec_bind, exec_here]
  dsimp only
  rw [if_pos hconfigured, exec_pure]

end Workspace

end ModulePins
