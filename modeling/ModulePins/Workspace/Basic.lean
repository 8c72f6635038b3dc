import ModulePins.Discovery
import ModulePins.DirectoryTree.Stored
import ModulePins.Emission.Cache
import ModulePins.Emission.Coordinate
import ModulePins.ModuleFile.Basic
import ModulePins.Settings.Layers

/-!
# Workspaces

A workspace is a directory whose modules are registered by address. Each registered module is a
`Project`: where it lies, the coordinate it is published under, and its descriptor. Descriptors
refer to each other by the position of their project, so projects are only ever added at the end.

* `Workspace.create` — a workspace without projects;
* `Workspace.register` — adds a project, or finds the one that is already there;
* `Workspace.get` — the project at an address;
* `Workspace.parentOf` — the closest registered project above another one.
-/

namespace ModulePins

/-- A registered module. -/
structure Project where
  address : String
  directory : Path
  descriptor : Descriptor
  group : String := ""
  artifactId : String := ""
  version : String := "unspecified"
  /-- The module file, once it has been read. -/
  file : Option Path := none
  /-- The addresses that the module file refers to. -/
  references : List String := []
  deriving DecidableEq, Repr, Inhabited

namespace Project

/-- The version of modules that do not say one. -/
def noVersion : String := "unspecified"

def coordinate (p : Project) : Coordinate := ⟨p.group, p.artifactId, p.version⟩

/-- Is it the project of the workspace directory itself? -/
def isRoot (p : Project) : Bool := p.address = Address.root

end Project

/-- The modules of a workspace, with what is needed to publish their documents. -/
structure Workspace where
  root : Path
  settings : Settings
  cache : Cache
  projects : List Project
  discovery : Option Discovery
  configured : Bool
  deriving DecidableEq

namespace Workspace

/-- Where the cache of a workspace is kept. -/
def cachePath (root : Path) (settings : Settings) : Path :=
  Settings.stateDir root / settings.cacheFile.val

/-- A workspace without projects. Without settings those of the workspace are read; a cache in
memory can take the place of the workspace's own. -/
def create (directory : Path) (settings : Option Settings) (cacheInMemory : Bool) :
    Task Session Workspace := do
  let root ← Session.realPath directory
  let settings ←
    match settings with
    | some s => pure s
    | none => Settings.load root
  let path := if cacheInMemory then none else some (cachePath root settings)
  return ⟨root, settings, Cache.opened path, [], none, false⟩

/-- The address as projects are registered under it. -/
def normalize (w : Workspace) (address : String) : String :=
  Address.normalize w.settings.separator.val address

/-- The position of the project with a normalized address. -/
def position? (w : Workspace) (address : String) : Option Nat :=
  w.projects.findIdx? fun p => p.address = address

/-- The project with a normalized address. -/
def find? (w : Workspace) (address : String) : Option Project :=
  w.projects.find? fun p => p.address = address

/-- The project at an address. -/
def get (w : Workspace) (address : String) : Except Fault Project :=
  match w.find? (w.normalize address) with
  | some p => .ok p
  | none => .error (.unknownModule address none)

/-- The addresses in the order of registration. -/
def addresses (w : Workspace) : List String := w.projects.map Project.address

/-- The descriptors by position. -/
def registry (w : Workspace) : Registry := w.projects.map Project.descriptor

/-- The address of a project as users see it. -/
def label (w : Workspace) (address : String) : String :=
  Address.label w.settings.separator address

/-- Changes the project at a position. -/
def modifyAt (w : Workspace) (i : Nat) (f : Project → Project) : Workspace :=
  { w with projects := w.projects.modify i f }

/-! ### Registration -/

/-- A record about the set-up. -/
def note (level : Level) (message : String) : Record :=
  ⟨level, .host, Subsystem.config.say message⟩

/-- The directory that an address stands for. -/
def directoryOf (w : Workspace) (address : String) : Path :=
  w.root.join (Address.segments w.settings.separator address)

/-- Registers a module, by default in the directory that the address stands for. One that is
registered already stays as it is. -/
def register (w : Workspace) (address : String) (directory : Option Path) :
    Workspace × List Record :=
  let address := w.normalize address
  match w.find? address with
  | some _ => (w, [note .debug ("Module " ++ Text.quoted address ++ " already registered")])
  | none =>
    let label := w.label address
    let p : Project :=
      { address, directory := directory.getD (w.directoryOf address),
        descriptor := { name := label } }
    ({ w with projects := w.projects ++ [p] }, [note .info ("Including " ++ label)])

/-- Registers the modules that were found, one after the other. -/
def registerAll (w : Workspace) : List FoundModule → Workspace × List Record
  | [] => (w, [])
  | m :: ms =>
    let (w₁, log) := w.register m.address (some m.directory)
    let (w₂, log') := registerAll w₁ ms
    (w₂, log ++ log')

/-! ### Ancestors -/

/-- The first registered project among an address and those above it. -/
def nearest? (w : Workspace) (address : String) : Option Project :=
  if address = "" then w.find? address
  else
    match w.find? address with
    | some p => some p
    | none => nearest? w (Address.parent w.settings.separator address)
  termination_by address.length
  decreasing_by exact Address.length_parent ‹_›

/-- The closest registered project above another one. -/
def parentOf (w : Workspace) (p : Project) : Option Project :=
  if p.isRoot then none
  else w.nearest? (Address.parent w.settings.separator p.address)

end Workspace

end ModulePins
