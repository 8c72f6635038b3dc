import ModulePins.ModuleFile.Load
import ModulePins.Workspace.Basic

/-!
# Configuring a workspace

The first phase: the modules are found and registered, their module files are read, and what they
refer to is linked. The module file of the workspace directory is read first, because it lends its
group and version to modules that do not say theirs. Links are made when all files have been read, so
a module may refer to any other one.

A phase that fails leaves what it did so far, and starts from the beginning when it is run again.

* `Workspace.loadProject` — reads the module file of one project;
* `Workspace.link` — the links of one project;
* `Workspace.configure` — the phase.
-/

namespace ModulePins

/-- A task that works on a workspace. -/
abbrev Hosting (α : Type) := Task (Workspace × Session) α

namespace Project

/-- The text if it says something. -/
def said (s : Option String) : Option String := s.filter (· ≠ "")

/-- The project with the name of its directory in place of a name of its own. -/
def unnamed (p : Project) : Project := { p with artifactId := p.directory.name }

/-- The project with what its module file says; `defaults` is the module file of the root. -/
def identified (p : Project) (path : Path) (file : ModuleFile) (defaults : Option ModuleFile) :
    Project :=
  { p with
    file := some path
    artifactId := (said file.name).getD p.directory.name
    group := (said file.group <|> (defaults.bind fun d => said d.group)).getD ""
    version := (said file.version <|> (defaults.bind fun d => said d.version)).getD noVersion }

end Project

namespace Workspace

/-- The workspace as it is. -/
def here : Hosting Workspace := Task.part

/-- Changes the workspace and reports what that says. -/
def step (f : Workspace → Workspace × List Record) : Hosting Unit := do
  let (w, log) := f (← here)
  Task.setPart w
  Task.report log

/-- Changes the project at a position. -/
def modifyProject (i : Nat) (f : Project → Project) : Hosting Unit :=
  step fun w => (w.modifyAt i f, [])

/-- Reads the module file of the project at a position, if there is one, and makes its declarations
on the project's descriptor. -/
def loadProject (defaults : Option ModuleFile) (i : Nat) : Hosting (Option ModuleFile) := do
  match (← here).projects[i]? with
  | none => return none
  | some p =>
    modifyProject i Project.unnamed
    let path := p.directory / (← here).settings.moduleFile.val
    if !(← Task.session (Session.ask (·.isFile? path))) then return none
    let file ← Task.session (ModuleFile.load path)
    modifyProject i (·.identified path file defaults)
    let r := file.apply p.descriptor
    modifyProject i fun p => { p with descriptor := r.descriptor }
    Task.report r.log
    match r.fault with
    | some f => throw f
    | none =>
      modifyProject i fun p => { p with references := file.references }
      return some file

/-- Links the project at a position to what it refers to, up to the first unknown address. -/
def linkTo (w : Workspace) (i : Nat) (name : String) : List String → Workspace × Option Fault
  | [] => (w, none)
  | r :: rs =>
    match w.position? (w.normalize r) with
    | none => (w, some (.unknownModule r (some name)))
    | some j =>
      linkTo (w.modifyAt i fun p => { p with descriptor := p.descriptor.inherit j }) i name rs

/-- Links the project at a position. -/
def link (i : Nat) : Hosting Unit := do
  let w ← here
  match w.projects[i]? with
  | none => return ()
  | some p =>
    let (w', fault) := w.linkTo i p.descriptor.name p.references
    Task.setPart w'
    match fault with
    | some f => throw f
    | none => return ()

/-- Walks the directories of the workspace. -/
def discover : Hosting Discovery := do
  let w ← here
  let tree ← Task.session (Session.ask fun files => .ok (files.tree w.root))
  let (d, log) := (WalkRules.ofSettings w.settings).walk tree
  Task.report log
  Task.setPart { w with discovery := some d }
  return d

/-- Finds, registers, reads and links all modules, unless that has been done. -/
def configure : Hosting Unit := do
  let w ← here
  if w.configured then return ()
  Task.report
    [note .info ("Settings evaluated, searching for modules under " ++ w.root.toString ++ "...")]
  step (·.register Address.root (some w.root))
  let found ← discover
  step (·.registerAll found.modules)
  let w ← here
  let positions := List.range w.projects.length
  let rootAt := (w.position? Address.root).getD 0
  let defaults ← loadProject none rootAt
  (positions.filter (· ≠ rootAt)).forM fun i => discard (loadProject defaults i)
  positions.forM link
  step fun w => ({ w with configured := true }, [])

end Workspace

end ModulePins
