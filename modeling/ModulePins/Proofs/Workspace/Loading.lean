import ModulePins.Proofs.ModuleFile.Contents
import ModulePins.Proofs.Workspace.Consistent

/-!
# What reading and linking make of the modules

Behind registration every step of the set-up works on one module, and what it makes of the module
depends on the settings, the files and the addresses alone, none of which change. So the set-up as a
whole is a map over the modules: `Workspace.settled` is what it makes of one of them, and
`Workspace.Legible` says when it succeeds.

The module file of the workspace directory is read first, without defaults, and the others have it
as defaults. For the map there is no difference: a module file that is its own defaults says what it
says without any.

## Main definitions

* `Project.reading` — what reading a module's file comes to
* `Workspace.fileOf`, `Workspace.rootFile` — the valid module files
* `Workspace.settled` — a module when the set-up is done
* `Workspace.Legible` — all module files can be read, and refer to modules

## Main results

* `Workspace.exec_loadProject`, `Workspace.linkTo_eq` — one step
* `Workspace.Acts.exec_forM` — a step for each module in a row
* `Workspace.exec_readAndLink`, `Workspace.legible_of_readAndLink` — the whole
-/

namespace ModulePins

open ModulePins.Task

namespace Project

/-- What reading a module's file comes to: the answer, what becomes of the module, and what is added
to the log. -/
structure Reading where
  answer : Except Fault (Option ModuleFile)
  project : Project
  log : List Record

/-- Reads the module file at a path for a module. -/
def reading (p : Project) (path : Path) (files : FileStore) (defaults : Option ModuleFile) :
    Reading :=
  match files.isFile? path with
  | .error e => ⟨.error (.file e), p.unnamed, []⟩
  | .ok false => ⟨.ok none, p.unnamed, []⟩
  | .ok true =>
    match ModuleFile.contents files path with
    | .error f => ⟨.error f, p.unnamed, ModuleFile.notes files path⟩
    | .ok file =>
      let r := file.apply p.descriptor
      match r.fault with
      | some f =>
        ⟨.error f, { p.identified path file defaults with descriptor := r.descriptor },
          ModuleFile.notes files path ++ r.log⟩
      | none =>
        ⟨.ok (some file), p.loaded path file defaults, ModuleFile.notes files path ++ r.log⟩

variable {p : Project} {path : Path} {files : FileStore} {defaults : Option ModuleFile}

/-- Reading does not move a module. -/
theorem reading_keeps (p : Project) (path : Path) (files : FileStore)
    (defaults : Option ModuleFile) :
    (p.reading path files defaults).project.address = p.address ∧
      (p.reading path files defaults).project.directory = p.directory := by
  rw [reading]
  split
  · exact ⟨rfl, rfl⟩
  · exact ⟨rfl, rfl⟩
  · split
    · exact ⟨rfl, rfl⟩
    · dsimp only
      split <;> exact ⟨rfl, rfl⟩

/-- The answer does not depend on the defaults. -/
theorem answer_reading (p : Project) (path : Path) (files : FileStore)
    (defaults defaults' : Option ModuleFile) :
    (p.reading path files defaults).answer = (p.reading path files defaults').answer := by
  rw [reading, reading]
  split
  · rfl
  · rfl
  · split
    · rfl
    · dsimp only
      split <;> rfl

theorem answer_of_missing (h : files.isFile? path = .ok false) :
    (p.reading path files defaults).answer = .ok none := by
  unfold reading
  rw [h]

theorem answer_of_contents {file : ModuleFile} (h : ModuleFile.contents files path = .ok file)
    (hfault : (file.apply p.descriptor).fault = none) :
    (p.reading path files defaults).answer = .ok (some file) := by
  have hfile : files.isFile? path = .ok true := by
    rw [ModuleFile.contents] at h
    split at h
    · cases h
    · cases h
    · assumption
  unfold reading
  rw [hfile]
  dsimp only
  rw [h]
  dsimp only
  rw [hfault]

/-- The module with what its file says, if it has one. -/
def given (p : Project) (path : Path) (defaults : Option ModuleFile) : Option ModuleFile → Project
  | none => p.unnamed
  | some file => p.loaded path file defaults

/-- A reading that succeeds answers with the valid module file at the path, if there is one. -/
theorem reading_of_answer {o : Option ModuleFile}
    (h : (p.reading path files defaults).answer = .ok o) :
    o = ModuleFile.at? files path ∧
      (p.reading path files defaults).project = p.given path defaults o := by
  rw [ModuleFile.at?]
  unfold reading at h ⊢
  cases hfile : files.isFile? path with
  | error e =>
    rw [hfile] at h
    cases h
  | ok isFile =>
    rw [hfile] at h
    cases isFile with
    | false =>
      cases h
      rw [ModuleFile.contents, hfile]
      exact ⟨rfl, rfl⟩
    | true =>
      dsimp only at h ⊢
      cases hcontents : ModuleFile.contents files path with
      | error f =>
        rw [hcontents] at h
        cases h
      | ok file =>
        rw [hcontents] at h
        dsimp only at h ⊢
        cases hfault : (file.apply p.descriptor).fault with
        | some f =>
          rw [hfault] at h
          cases h
        | none =>
          rw [hfault] at h
          cases h
          exact ⟨rfl, rfl⟩

/-- A module file that is its own defaults says what it says without any. -/
theorem given_self (p : Project) (path : Path) (o : Option ModuleFile) :
    p.given path o o = p.given path none o := by
  cases o with
  | none => rfl
  | some file =>
  rw [given, given, loaded, loaded, identified, identified]
  congr 1
  · cases h : said file.group <;> simp [h]
  · cases h : said file.version <;> simp [h]

/-- The module with references to modules by position. -/
def refer (p : Project) (targets : List DescriptorId) : Project :=
  { p with descriptor := { p.descriptor with parents := p.descriptor.parents ++ targets } }

@[simp] theorem address_refer (p : Project) (is : List DescriptorId) :
    (p.refer is).address = p.address := rfl

@[simp] theorem directory_refer (p : Project) (is : List DescriptorId) :
    (p.refer is).directory = p.directory := rfl

@[simp] theorem coordinate_refer (p : Project) (is : List DescriptorId) :
    (p.refer is).coordinate = p.coordinate := rfl

@[simp] theorem references_refer (p : Project) (is : List DescriptorId) :
    (p.refer is).references = p.references := rfl

@[simp] theorem descriptor_refer (p : Project) (is : List DescriptorId) :
    (p.refer is).descriptor =
      { p.descriptor with parents := p.descriptor.parents ++ is } := rfl

theorem refer_nil (p : Project) : p.refer [] = p := by
  rw [refer, List.append_nil]

theorem refer_refer (p : Project) (is js : List DescriptorId) :
    (p.refer is).refer js = p.refer (is ++ js) := by
  simp [refer]

end Project

namespace Workspace

variable {w w' : Workspace} {S S' : Session} {p : Project} {i : ℕ}

/-! ### Changing modules -/

theorem modifyAt_congr (hp : w.projects[i]? = some p) {f g : Project → Project} (h : f p = g p) :
    w.modifyAt i f = w.modifyAt i g := by
  rw [modifyAt, modifyAt]
  congr 1
  refine List.ext_getElem? fun j => ?_
  rw [List.getElem?_modify, List.getElem?_modify]
  split
  · rename_i hij
    simp [← hij, hp, h]
  · rfl

@[simp] theorem modifyAt_modifyAt (w : Workspace) (i : ℕ) (f g : Project → Project) :
    (w.modifyAt i f).modifyAt i g = w.modifyAt i fun p => g (f p) := by
  simp only [modifyAt, List.modify_modify_eq]
  rfl

theorem getElem?_modifyAt (w : Workspace) (i j : ℕ) (f : Project → Project) :
    (w.modifyAt i f).projects[j]? = if i = j then w.projects[j]?.map f else w.projects[j]? := by
  rw [modifyAt, List.getElem?_modify]
  split <;> simp

/-- Changes the modules at several positions. -/
def modifyAll (w : Workspace) (is : List ℕ) (f : Project → Project) : Workspace :=
  is.foldl (fun w i => w.modifyAt i f) w

theorem modifyAll_eq (w : Workspace) (is : List ℕ) (f : Project → Project) :
    ∃ projects, w.modifyAll is f = { w with projects } := by
  induction is generalizing w with
  | nil => exact ⟨_, rfl⟩
  | cons i is ih => exact ih (w.modifyAt i f)

theorem getElem?_modifyAll {is : List ℕ} (hnodup : is.Nodup) (w : Workspace) (f : Project → Project)
    (j : ℕ) : (w.modifyAll is f).projects[j]? =
      if j ∈ is then w.projects[j]?.map f else w.projects[j]? := by
  induction is generalizing w with
  | nil => simp [modifyAll]
  | cons i is ih =>
    obtain ⟨hi, his⟩ := List.nodup_cons.mp hnodup
    change ((w.modifyAt i f).modifyAll is f).projects[j]? = _
    rw [ih his, getElem?_modifyAt]
    by_cases hij : i = j
    · subst hij
      simp [hi]
    · simp [hij, Ne.symm hij]

/-- Changing the modules at several positions changes a module once or not at all. -/
theorem exists_of_mem_modifyAll {is : List ℕ} (hnodup : is.Nodup) {f : Project → Project}
    {q : Project} (hq : q ∈ (w.modifyAll is f).projects) : ∃ p ∈ w.projects, q = p ∨ q = f p := by
  obtain ⟨j, hj⟩ := List.mem_iff_getElem?.mp hq
  rw [getElem?_modifyAll hnodup] at hj
  split at hj
  · obtain ⟨p, hp, rfl⟩ := Option.map_eq_some_iff.mp hj
    exact ⟨p, List.mem_of_getElem? hp, .inr rfl⟩
  · exact ⟨q, List.mem_of_getElem? hj, .inl rfl⟩

/-- Changing the modules at all positions is a map over the modules. -/
theorem modifyAll_all {is : List ℕ} (hnodup : is.Nodup)
    (hall : ∀ j, j < w.projects.length → j ∈ is) (f : Project → Project) :
    w.modifyAll is f = { w with projects := w.projects.map f } := by
  obtain ⟨ps, hps⟩ := modifyAll_eq w is f
  rw [hps]
  congr 1
  refine List.ext_getElem? fun j => ?_
  have hget := getElem?_modifyAll hnodup w f j
  rw [hps] at hget
  rw [hget, List.getElem?_map]
  split
  · rfl
  · rename_i hj
    have hbeyond : w.projects.length ≤ j := not_lt.mp fun hlt => hj (hall j hlt)
    rw [List.getElem?_eq_none hbeyond]
    rfl

/-- Changing the module at one position first, and then those at all others, is a map too. -/
theorem modifyAll_others (w : Workspace) (at' : ℕ) (f : Project → Project) :
    (w.modifyAt at' f).modifyAll ((List.range w.projects.length).filter (· ≠ at')) f =
      { w with projects := w.projects.map f } := by
  have hall : at' :: ((List.range w.projects.length).filter (· ≠ at')) |>.Nodup := by
    simpa using List.nodup_range.filter _
  change w.modifyAll (at' :: (List.range w.projects.length).filter (· ≠ at')) f = _
  refine modifyAll_all hall (fun j hj => ?_) f
  by_cases hjat : j = at'
  · exact hjat ▸ List.mem_cons_self
  · exact List.mem_cons_of_mem _ (List.mem_filter.mpr ⟨List.mem_range.mpr hj, by simpa using hjat⟩)

/-! ### A step for each module -/

/-- The step for one position changes the module there, by the settings, the addresses and the files
alone, and reports. -/
structure Acts (w : Workspace) (files : FileStore) (act : ℕ → Hosting Unit)
    (answer : Project → Except Fault Unit) (f : Project → Project) : Prop where
  keeps : ∀ p, (f p).address = p.address
  step : ∀ {w' : Workspace} {S : Session} {i : ℕ} {p : Project}, w'.settings = w.settings →
    w'.addresses = w.addresses → S.files = files → w'.projects[i]? = some p →
    ∃ log, exec (act i) (w', S) =
      (answer p, (w'.modifyAt i fun _ => f p, { S with log }))

theorem addresses_modifyAt {f : Project → Project} (hf : ∀ p, (f p).address = p.address)
    (w : Workspace) (i : ℕ) : (w.modifyAt i f).addresses = w.addresses := by
  refine List.ext_getElem? fun j => ?_
  rw [addresses, addresses, List.getElem?_map, List.getElem?_map, getElem?_modifyAt]
  split
  · cases w.projects[j]? <;> simp [hf]
  · rfl

/-- **Steps in a row** all succeed, or one of them fails and is the last one. -/
theorem Acts.exec_forM {w₀ : Workspace} {act : ℕ → Hosting Unit}
    {answer : Project → Except Fault Unit} {f : Project → Project}
    (h : Acts w₀ S.files act answer f) {is : List ℕ} (hnodup : is.Nodup)
    (his : ∀ i ∈ is, i < w.projects.length) (hsettings : w.settings = w₀.settings)
    (haddresses : w.addresses = w₀.addresses) :
    ((∀ i ∈ is, ∀ p, w.projects[i]? = some p → answer p = .ok ()) ∧
      ∃ log, exec (is.forM act) (w, S) = (.ok (), (w.modifyAll is f, { S with log }))) ∨
    ∃ i ∈ is, ∃ p fault done log, w.projects[i]? = some p ∧ answer p = .error fault ∧ done <+: is ∧
      exec (is.forM act) (w, S) = (.error fault, (w.modifyAll done f, { S with log })) := by
  induction is generalizing w S with
  | nil => exact .inl ⟨by simp, S.log, rfl⟩
  | cons i is ih =>
    obtain ⟨hi, hnodup⟩ := List.nodup_cons.mp hnodup
    obtain ⟨hlt, his⟩ := List.forall_mem_cons.mp his
    obtain ⟨p, hp⟩ : ∃ p, w.projects[i]? = some p := ⟨_, List.getElem?_eq_getElem hlt⟩
    obtain ⟨log, hstep⟩ := h.step hsettings haddresses rfl hp
    rw [modifyAt_congr hp (f := fun _ => f p) (g := f) rfl] at hstep
    cases hanswer : answer p with
    | error fault =>
      rw [hanswer] at hstep
      exact .inr ⟨i, List.mem_cons_self, p, fault, [i], log, hp, hanswer, ⟨is, rfl⟩,
        exec_bind_error hstep _⟩
    | ok u =>
      rw [hanswer] at hstep
      have hlength : (w.modifyAt i f).projects.length = w.projects.length :=
        List.length_modify f w.projects i
      have hother {j : ℕ} (hj : j ∈ is) : (w.modifyAt i f).projects[j]? = w.projects[j]? := by
        rw [getElem?_modifyAt, if_neg (ne_of_mem_of_not_mem hj hi).symm]
      have hrest := ih (w := w.modifyAt i f) (S := { S with log }) h hnodup (hlength ▸ his)
        hsettings ((addresses_modifyAt h.keeps w i).trans haddresses)
      have hrun : exec ((i :: is).forM act) (w, S) =
          exec (is.forM act) (w.modifyAt i f, { S with log }) := exec_bind_ok hstep _
      rw [hrun]
      rcases hrest with ⟨hall, log', hexec⟩ | ⟨j, hj, q, fault, done, log', hq, hfault, hdone, hexec⟩
      · refine .inl ⟨fun j hj q hq => ?_, log', hexec⟩
        rcases List.mem_cons.mp hj with rfl | hj
        · rw [hp] at hq
          cases hq
          exact hanswer
        · exact hall j hj q ((hother hj).trans hq)
      · exact .inr ⟨j, List.mem_cons_of_mem i hj, q, fault, i :: done, log',
          (hother hj).symm.trans hq, hfault, List.cons_prefix_cons.mpr ⟨rfl, hdone⟩, hexec⟩

/-! ### Reading -/

/-- Where the module file of a module is. -/
def filePath (w : Workspace) (p : Project) : Path := p.directory / w.settings.moduleFile.val

/-- **Reading a module's file**, if it is there. -/
theorem exec_loadProject (hp : w.projects[i]? = some p) (defaults : Option ModuleFile)
    (S : Session) : exec (loadProject defaults i) (w, S) =
      ((p.reading (w.filePath p) S.files defaults).answer,
        (w.modifyAt i fun _ => (p.reading (w.filePath p) S.files defaults).project,
          { S with log := S.log ++ (p.reading (w.filePath p) S.files defaults).log })) := by
  have hpath : p.directory / (w.modifyAt i Project.unnamed).settings.moduleFile.val = w.filePath p :=
    rfl
  have hto (f : Project → Project) : w.modifyAt i f = w.modifyAt i fun _ => f p :=
    modifyAt_congr hp rfl
  rw [loadProject, exec_bind, exec_here]
  dsimp only
  rw [hp]
  dsimp only
  rw [exec_bind, modifyProject, exec_step]
  dsimp only
  rw [List.append_nil, exec_bind, exec_here]
  dsimp only
  rw [exec_bind, exec_session, Session.exec_ask, hpath, Project.reading]
  cases S.files.isFile? (w.filePath p) with
  | error e => simp [hto Project.unnamed]
  | ok isFile =>
    cases isFile with
    | false => simp [hto Project.unnamed]
    | true =>
      simp only [Except.mapError_ok, Bool.not_true, Bool.false_eq_true, if_false]
      rw [exec_bind, exec_session, ModuleFile.exec_load]
      cases ModuleFile.contents S.files (w.filePath p) with
      | error f =>
        dsimp only
        rw [hto Project.unnamed]
      | ok file =>
        dsimp only
        rw [exec_bind, modifyProject, exec_step]
        dsimp only
        rw [exec_bind, modifyProject, exec_step]
        dsimp only
        rw [exec_bind, exec_report]
        dsimp only
        rw [modifyAt_modifyAt, modifyAt_modifyAt, hto]
        cases (file.apply p.descriptor).fault with
        | some f => simp [Project.identified, Project.unnamed]
        | none =>
          dsimp only
          rw [exec_bind, modifyProject, exec_step]
          simp [Project.identified, Project.unnamed, Project.loaded]

/-- The valid module file of a module, if there is one. -/
def fileOf (w : Workspace) (files : FileStore) (p : Project) : Option ModuleFile :=
  ModuleFile.at? files (w.filePath p)

/-- The valid module file of the module at an address, if there is one. -/
def moduleAt (w : Workspace) (files : FileStore) (address : String) : Option ModuleFile :=
  (w.find? address).bind (w.fileOf files)

/-- The valid module file of the module of the workspace directory. -/
abbrev rootFile (w : Workspace) (files : FileStore) : Option ModuleFile :=
  w.moduleAt files Address.root

/-- A module whose file has been read. -/
def readProject (w : Workspace) (files : FileStore) (p : Project) : Project :=
  (p.reading (w.filePath p) files (w.rootFile files)).project

theorem answer_eq_fileOf {files : FileStore} {o : Option ModuleFile}
    (h : (p.reading (w.filePath p) files none).answer = .ok o) :
    (p.reading (w.filePath p) files none).answer = .ok (w.fileOf files p) := by
  rw [h, (Project.reading_of_answer h).1, fileOf]

theorem readProject_eq {files : FileStore}
    (h : (p.reading (w.filePath p) files none).answer = .ok (w.fileOf files p)) :
    w.readProject files p = p.given (w.filePath p) (w.rootFile files) (w.fileOf files p) :=
  (Project.reading_of_answer ((Project.answer_reading _ _ _ _ none).trans h)).2

/-- The step for a module succeeds if its file can be read without defaults. -/
theorem answer_eq_fileOf_of_map {files : FileStore} {defaults : Option ModuleFile}
    (h : ((p.reading (w.filePath p) files defaults).answer.map fun _ => ()) = .ok ()) :
    (p.reading (w.filePath p) files none).answer = .ok (w.fileOf files p) := by
  rw [Project.answer_reading _ _ _ _ none] at h
  cases hanswer : (p.reading (w.filePath p) files none).answer with
  | error fault =>
    rw [hanswer] at h
    cases h
  | ok o => rw [← hanswer, answer_eq_fileOf hanswer]

/-- The step for a module fails with the fault of reading its file without defaults. -/
theorem answer_eq_error_of_map {files : FileStore} {defaults : Option ModuleFile} {fault : Fault}
    (h : ((p.reading (w.filePath p) files defaults).answer.map fun _ => ()) = .error fault) :
    (p.reading (w.filePath p) files none).answer = .error fault := by
  rw [Project.answer_reading _ _ _ _ none] at h
  cases hanswer : (p.reading (w.filePath p) files none).answer with
  | error f =>
    rw [hanswer] at h
    cases h
    rfl
  | ok o =>
    rw [hanswer] at h
    cases h

/-! ### Linking -/

/-- The position of the module that a reference is to. -/
def target? (w : Workspace) (reference : String) : Option ℕ := w.position? (w.normalize reference)

theorem position?_eq_findIdx? (w : Workspace) (a : String) :
    w.position? a = w.addresses.findIdx? fun b => b = a := by
  rw [position?, addresses, List.findIdx?_map]
  rfl

/-- The position depends on the settings and the addresses. -/
theorem target?_congr (haddresses : w'.addresses = w.addresses)
    (hsettings : w'.settings = w.settings) (r : String) : w'.target? r = w.target? r := by
  rw [target?, target?, position?_eq_findIdx?, position?_eq_findIdx?, normalize, normalize, hsettings,
    haddresses]

/-- The positions of the modules that are referred to, up to the first that is not there. -/
def targets (w : Workspace) (references : List String) : List DescriptorId :=
  (references.takeWhile fun r => (w.target? r).isSome).filterMap w.target?

/-- The fault of a module that refers to one that is not there. -/
def unknown? (w : Workspace) (name : String) (references : List String) : Option Fault :=
  (references.find? fun r => (w.target? r).isNone).map fun r => .unknownModule r (some name)

/-- **Linking**, one reference after the other. -/
theorem linkTo_eq (w : Workspace) (i : ℕ) (name : String) (rs : List String) :
    w.linkTo i name rs = (w.modifyAt i fun p => p.refer (w.targets rs), w.unknown? name rs) := by
  have hnone (v : Workspace) : (v.modifyAt i fun p => p.refer []) = v := by
    simp only [Project.refer_nil, modifyAt]
    rw [show (fun p : Project => p) = id from rfl, List.modify_id]
  induction rs generalizing w with
  | nil => rw [linkTo, targets, List.takeWhile_nil, List.filterMap_nil, hnone, unknown?]; rfl
  | cons r rs ih =>
    rw [linkTo, ← target?]
    cases hr : w.target? r with
    | none => simp [targets, unknown?, hr, hnone]
    | some j =>
      have hkeeps : (w.modifyAt i fun p => p.refer [j]).addresses = w.addresses :=
        addresses_modifyAt (f := fun p => p.refer [j]) (fun _ => rfl) w i
      have hsame : (w.modifyAt i fun p => p.refer [j]).target? = w.target? :=
        funext (target?_congr hkeeps rfl)
      change linkTo (w.modifyAt i fun p => p.refer [j]) i name rs = _
      rw [ih, modifyAt_modifyAt]
      simp [targets, unknown?, hsame, hr, Project.refer_refer]

/-- A module with links to the modules it refers to. -/
def linked (w : Workspace) (p : Project) : Project := p.refer (w.targets p.references)

/-- Links the module at a position. -/
theorem exec_link (hp : w.projects[i]? = some p) (S : Session) : exec (link i) (w, S) =
    ((match w.unknown? p.descriptor.name p.references with
      | some f => .error f
      | none => .ok ()), (w.modifyAt i fun _ => w.linked p, S)) := by
  rw [link, exec_bind, exec_here]
  dsimp only
  rw [hp]
  dsimp only
  rw [linkTo_eq, exec_bind, exec_setPart]
  dsimp only
  rw [modifyAt_congr hp (g := fun _ => w.linked p) (by exact rfl)]
  cases w.unknown? p.descriptor.name p.references <;> rfl

theorem isNone_target?_iff {r : String} : (w.target? r).isNone ↔ w.normalize r ∉ w.addresses := by
  rw [target?, position?, Option.isNone_iff_eq_none, List.findIdx?_eq_none_iff]
  simp [addresses]

theorem unknown?_eq_none_iff {name : String} {rs : List String} :
    w.unknown? name rs = none ↔ ∀ r ∈ rs, w.normalize r ∈ w.addresses := by
  simp only [unknown?, Option.map_eq_none_iff, List.find?_eq_none, isNone_target?_iff, not_not]

theorem of_unknown?_eq_some {name : String} {rs : List String} {fault : Fault}
    (h : w.unknown? name rs = some fault) :
    ∃ r ∈ rs, w.normalize r ∉ w.addresses ∧ .unknownModule r (some name) = fault := by
  obtain ⟨r, hr, hfault⟩ := Option.map_eq_some_iff.mp h
  have hnone : (w.target? r).isNone := by simpa using List.find?_some hr
  exact ⟨r, List.mem_of_find?_eq_some hr, isNone_target?_iff.mp hnone, hfault⟩

/-! ### The whole -/

/-- A module when its file has been read and its links have been made. -/
def settled (w : Workspace) (files : FileStore) (p : Project) : Project :=
  w.linked (w.readProject files p)

/-- Every module file can be read, declares what can be declared, and refers to modules. -/
structure Legible (w : Workspace) (files : FileStore) : Prop where
  read : ∀ p ∈ w.projects, (p.reading (w.filePath p) files none).answer = .ok (w.fileOf files p)
  refer : ∀ p ∈ w.projects, ∀ r ∈ (w.readProject files p).references, w.normalize r ∈ w.addresses

theorem readProject_keeps (w : Workspace) (files : FileStore) (p : Project) :
    (w.readProject files p).address = p.address ∧ (w.readProject files p).directory = p.directory :=
  Project.reading_keeps _ _ _ _

/-- Reading the module files, behind that of the workspace directory. -/
theorem acts_load (w : Workspace) (files : FileStore) :
    Acts w files (fun i => discard (loadProject (w.rootFile files) i))
      (fun p => (p.reading (w.filePath p) files (w.rootFile files)).answer.map fun _ => ())
      (w.readProject files) where
  keeps p := (w.readProject_keeps files p).1
  step := by
    rintro w' S i p hsettings - rfl hp
    have hpath : w'.filePath p = w.filePath p := by rw [filePath, filePath, hsettings]
    change ∃ log, exec ((fun _ => ()) <$> loadProject (w.rootFile S.files) i) (w', S) = _
    rw [exec_map, exec_loadProject hp, hpath]
    exact ⟨_, rfl⟩

/-- Making the links. -/
theorem acts_link (w : Workspace) (files : FileStore) :
    Acts w files link
      (fun p => match w.unknown? p.descriptor.name p.references with
        | some f => .error f
        | none => .ok ())
      w.linked where
  keeps _ := rfl
  step := by
    intro w' S i p hsettings haddresses _ hp
    have htarget : w'.target? = w.target? := funext (target?_congr haddresses hsettings)
    rw [exec_link hp, unknown?, unknown?, linked, linked, targets, targets, htarget]
    exact ⟨S.log, rfl⟩

/-- The module of the workspace directory is read without defaults, as if it had its own. -/
theorem exec_loadProject_root {root : Project} (hfind : w.find? Address.root = some root)
    (hroot : w.projects[i]? = some root) (S : Session)
    (hread : (root.reading (w.filePath root) S.files none).answer = .ok (w.fileOf S.files root)) :
    ∃ log, exec (loadProject none i) (w, S) =
      (.ok (w.rootFile S.files), (w.modifyAt i (w.readProject S.files), { S with log })) := by
  have hfile : w.rootFile S.files = w.fileOf S.files root := by
    rw [rootFile, moduleAt, hfind, Option.bind_some]
  have hproject : (root.reading (w.filePath root) S.files none).project =
      w.readProject S.files root := by
    rw [readProject_eq hread, (Project.reading_of_answer hread).2, hfile, Project.given_self]
  rw [exec_loadProject hroot, hread, hproject, ← hfile,
    modifyAt_congr hroot (f := fun _ => w.readProject S.files root) (g := w.readProject S.files) rfl]
  exact ⟨_, rfl⟩

/-- Reading all module files, behind that of the workspace directory. -/
theorem exec_loadOthers {root : Project} {at' : ℕ} (hroot : w.projects[at']? = some root)
    (hread : (root.reading (w.filePath root) S.files none).answer = .ok (w.fileOf S.files root)) :
    let act : Hosting Unit := ((List.range w.projects.length).filter (· ≠ at')).forM fun i =>
      discard (loadProject (w.rootFile S.files) i)
    ((∀ p ∈ w.projects, (p.reading (w.filePath p) S.files none).answer = .ok (w.fileOf S.files p)) ∧
      ∃ log, exec act (w.modifyAt at' (w.readProject S.files), S) =
        (.ok (), ({ w with projects := w.projects.map (w.readProject S.files) }, { S with log }))) ∨
    (∃ p ∈ w.projects, ∃ fault, (p.reading (w.filePath p) S.files none).answer = .error fault) ∧
      ∃ fault projects log, exec act (w.modifyAt at' (w.readProject S.files), S) =
        (.error fault, ({ w with projects }, { S with log })) := by
  intro act
  have hlength : (w.modifyAt at' (w.readProject S.files)).projects.length = w.projects.length :=
    List.length_modify _ _ _
  have hkeeps : (w.modifyAt at' (w.readProject S.files)).addresses = w.addresses :=
    addresses_modifyAt (fun p => (w.readProject_keeps S.files p).1) w at'
  have hothers {i : ℕ} (hi : i ≠ at') :
      (w.modifyAt at' (w.readProject S.files)).projects[i]? = w.projects[i]? := by
    rw [getElem?_modifyAt, if_neg hi.symm]
  have hrun := (acts_load w S.files).exec_forM (w := w.modifyAt at' (w.readProject S.files))
    (List.nodup_range.filter (· ≠ at'))
    (fun i hi => by rw [hlength]; exact List.mem_range.mp (List.mem_filter.mp hi).1) rfl hkeeps
  rcases hrun with ⟨hok, log, hexec⟩ | ⟨i, hi, p, fault, done, log, hp, hfault, -, hexec⟩
  · refine .inl ⟨fun p hp => ?_, log, hexec.trans (by rw [modifyAll_others])⟩
    obtain ⟨i, hi, rfl⟩ := List.getElem_of_mem hp
    have hget : w.projects[i]? = some w.projects[i] := List.getElem?_eq_getElem hi
    by_cases hiat : i = at'
    · subst hiat
      rw [hroot] at hget
      rw [← Option.some.inj hget]
      exact hread
    · exact answer_eq_fileOf_of_map (hok i
        (List.mem_filter.mpr ⟨List.mem_range.mpr hi, by simpa using hiat⟩) _ ((hothers hiat).trans hget))
  · obtain ⟨projects, hprojects⟩ := modifyAll_eq (w.modifyAt at' (w.readProject S.files)) done
      (w.readProject S.files)
    have hiat : i ≠ at' := by simpa using (List.mem_filter.mp hi).2
    exact .inr ⟨⟨p, List.mem_of_getElem? ((hothers hiat).symm.trans hp), fault,
      answer_eq_error_of_map hfault⟩, fault, projects, log, hexec.trans (by rw [hprojects]; rfl)⟩

/-- Making all links, when all files have been read. -/
theorem exec_links (w : Workspace) (ps : List Project) (haddresses : ps.map Project.address = w.addresses)
    (S : Session) :
    ((∀ p ∈ ps, ∀ r ∈ p.references, w.normalize r ∈ w.addresses) ∧
      ∃ log, exec ((List.range ps.length).forM link) ({ w with projects := ps }, S) =
        (.ok (), ({ w with projects := ps.map w.linked }, { S with log }))) ∨
    ∃ p ∈ ps, ∃ r ∈ p.references, w.normalize r ∉ w.addresses ∧ ∃ projects log,
      exec ((List.range ps.length).forM link) ({ w with projects := ps }, S) =
        (.error (.unknownModule r (some p.descriptor.name)), ({ w with projects }, { S with log })) ∧
      ∀ q ∈ projects, ∃ p ∈ ps, q = p ∨ q = w.linked p := by
  have hrun := (acts_link w S.files).exec_forM (w := { w with projects := ps })
    (List.nodup_range (n := ps.length)) (fun i hi => List.mem_range.mp hi) rfl haddresses
  have hfull : { w with projects := ps }.modifyAll (List.range ps.length) w.linked =
      { w with projects := ps.map w.linked } :=
    modifyAll_all List.nodup_range (fun j hj => List.mem_range.mpr hj) _
  rcases hrun with ⟨hok, log, hexec⟩ | ⟨i, hi, p, fault, done, log, hp, hfault, hdone, hexec⟩
  · refine .inl ⟨fun p hp => ?_, log, hexec.trans (by rw [hfull])⟩
    obtain ⟨i, hi, rfl⟩ := List.getElem_of_mem hp
    have hanswer := hok i (List.mem_range.mpr hi) _ (List.getElem?_eq_getElem hi)
    cases hunknown : w.unknown? ps[i].descriptor.name ps[i].references with
    | none => exact unknown?_eq_none_iff.mp hunknown
    | some f => simp [hunknown] at hanswer
  · obtain ⟨projects, hprojects⟩ := modifyAll_eq { w with projects := ps } done w.linked
    have hsteps (q : Project) (hq : q ∈ projects) : ∃ p ∈ ps, q = p ∨ q = w.linked p := by
      have hq' : q ∈ (modifyAll { w with projects := ps } done w.linked).projects := by
        rw [hprojects]
        exact hq
      exact exists_of_mem_modifyAll (hdone.sublist.nodup List.nodup_range) hq'
    cases hunknown : w.unknown? p.descriptor.name p.references with
    | none => simp [hunknown] at hfault
    | some f =>
      obtain rfl : f = fault := by simpa [hunknown] using hfault
      obtain ⟨r, hr, hnot, rfl⟩ := of_unknown?_eq_some hunknown
      exact .inr ⟨p, List.mem_of_getElem? hp, r, hr, hnot, projects, log,
        hexec.trans (by rw [hprojects]), hsteps⟩

/-- The workspace when all files have been read and all links have been made. -/
def whole (w : Workspace) (files : FileStore) : Workspace :=
  { w with projects := w.projects.map (w.settled files), configured := true }

/-- **Reading and linking** is a map over the modules, if all files are legible; else it fails. If
this is not for a file that cannot be read, then it is for a reference to a module that is not there,
all modules have been read, and some have been linked. -/
theorem exec_readAndLink (hconsistent : w.Consistent) (hroot : Address.root ∈ w.addresses)
    (S : Session) :
    (w.Legible S.files ∧
      ∃ log, exec readAndLink (w, S) = (.ok (), (w.whole S.files, { S with log }))) ∨
    ¬ w.Legible S.files ∧ ∃ fault projects log,
      exec readAndLink (w, S) = (.error fault, ({ w with projects }, { S with log })) ∧
      ((∀ p ∈ w.projects, (p.reading (w.filePath p) S.files none).answer = .ok (w.fileOf S.files p)) →
        (∃ p ∈ w.projects, ∃ r ∈ (w.readProject S.files p).references, w.normalize r ∉ w.addresses ∧
          fault = .unknownModule r (some (w.readProject S.files p).descriptor.name)) ∧
        ∀ q ∈ projects, ∃ p ∈ w.projects, q = w.readProject S.files p ∨ q = w.settled S.files p) := by
  obtain ⟨root, hmem, haddress⟩ := List.mem_map.mp hroot
  obtain ⟨at', hlt, hget⟩ := List.getElem_of_mem hmem
  have hgetroot : w.projects[at']? = some root := List.getElem?_eq_some_iff.mpr ⟨hlt, hget⟩
  have hposition : (w.position? Address.root).getD 0 = at' := by
    rw [← haddress, hconsistent.position?_eq hgetroot, Option.getD_some]
  have hfind : w.find? Address.root = some root := haddress ▸ hconsistent.find?_eq hmem
  rw [readAndLink, exec_bind, exec_here]
  dsimp only
  rw [hposition]
  cases hanswer : (root.reading (w.filePath root) S.files none).answer with
  | error fault =>
    have hunread (h : ∀ p ∈ w.projects,
        (p.reading (w.filePath p) S.files none).answer = .ok (w.fileOf S.files p)) : False := by
      rw [h root hmem] at hanswer
      cases hanswer
    have hfirst := exec_loadProject hgetroot none S
    rw [hanswer] at hfirst
    exact .inr ⟨fun h => hunread h.read, fault, _, _, exec_bind_error hfirst _,
      fun h => (hunread h).elim⟩
  | ok o =>
    obtain ⟨rfl, -⟩ := Project.reading_of_answer hanswer
    obtain ⟨log, hfirst⟩ := exec_loadProject_root hfind hgetroot S hanswer
    rw [exec_bind_ok hfirst]
    rcases exec_loadOthers (S := { S with log }) hgetroot hanswer with
      ⟨hread, log₂, hothers⟩ | ⟨⟨p, hp, fault, hfault⟩, fault', projects, log₂, hothers⟩
    · rw [exec_bind_ok hothers]
      have hlength : w.projects.length = (w.projects.map (w.readProject S.files)).length := by simp
      have haddresses : (w.projects.map (w.readProject S.files)).map Project.address = w.addresses := by
        rw [List.map_map, addresses]
        exact List.map_congr_left fun p _ => (w.readProject_keeps S.files p).1
      rw [hlength]
      rcases exec_links w _ haddresses { S with log := log₂ } with
        ⟨hrefer, log₃, hlinks⟩ | ⟨q, hq, r, hr, hunknown, projects, log₃, hlinks, hsteps⟩
      · refine .inl ⟨⟨hread, fun p hp => hrefer _ (List.mem_map_of_mem hp)⟩, ?_⟩
        rw [exec_bind_ok hlinks, exec_step, List.map_map]
        exact ⟨_, rfl⟩
      · obtain ⟨p, hp, rfl⟩ := List.mem_map.mp hq
        refine .inr ⟨fun h => hunknown (h.refer p hp r hr), _, projects, log₃,
          exec_bind_error hlinks _, fun _ => ⟨⟨p, hp, r, hr, hunknown, rfl⟩, fun q hq => ?_⟩⟩
        obtain ⟨p', hp', hstep⟩ := hsteps q hq
        obtain ⟨p, hp, rfl⟩ := List.mem_map.mp hp'
        exact ⟨p, hp, hstep⟩
    · have hunread (h : ∀ p ∈ w.projects,
          (p.reading (w.filePath p) S.files none).answer = .ok (w.fileOf S.files p)) : False := by
        rw [h p hp] at hfault
        cases hfault
      exact .inr ⟨fun h => hunread h.read, fault', projects, log₂, exec_bind_error hothers _,
        fun h => (hunread h).elim⟩

end Workspace

end ModulePins
