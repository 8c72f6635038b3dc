import ModulePins.Descriptor.Document
import ModulePins.Emission.Emit
import ModulePins.Workspace.Configure

/-!
# Publishing documents

The second phase: the document of every module with a module id is rendered from its effective pins
and emitted. One memo serves all modules, and the cache is saved even if a later module fails, so
what was written is known to be up to date the next time.

* `Workspace.documentOf` — the document of a project;
* `Workspace.render` — its text, for the console perhaps with masked defaults;
* `Workspace.finalize` — the phase.
-/

namespace ModulePins

namespace Workspace

/-- Fails unless the workspace has been configured. -/
def requireConfigured (w : Workspace) : Except Fault Unit :=
  if w.configured then .ok ()
  else .error (.general "Workspace not configured. Call configure() first.")

/-- The document of a project with the given effective pins. -/
def documentOf (w : Workspace) (p : Project) (pins : Effective) : Document where
  schemaVersion := w.settings.schemaVersion
  artifactId := p.coordinate.text
  moduleId := p.descriptor.moduleId
  displayName := p.descriptor.displayName
  description := p.descriptor.description
  properties := p.descriptor.properties
  outputs := pins.outputs
  inputs := pins.inputs

/-- The document of the project at a position, and the memo that results. -/
def documentAt (w : Workspace) (memo : Memo) (i : Nat) (p : Project) :
    Hosting (Document × Memo) := do
  let v := Resolver.resolve w.registry memo i
  Task.report v.log
  match v.outcome with
  | .ok pins => return (w.documentOf p pins, v.memo)
  | .error cycle => throw (.inheritanceCycle cycle)

/-- The text of the document of the module at an address. -/
def render (address : String) (masked : Bool) : Hosting String := do
  let w ← here
  Task.ofExcept w.requireConfigured
  let p ← Task.ofExcept (w.get address)
  if !p.descriptor.enabled then
    throw (.general ("Module " ++ Text.quoted p.descriptor.name ++
      " declares no moduleId; no descriptor"))
  let (d, _) ← w.documentAt [] ((w.position? p.address).getD 0) p
  return d.text masked

/-- A task on the cache of the workspace. -/
def caching {α : Type} (t : Caching α) : Hosting α :=
  Task.focus (fun both => (both.1.cache, both.2))
    (fun part both => ({ both.1 with cache := part.1 }, part.2)) t

/-- Where the document of a project goes. -/
def outputOf (w : Workspace) (p : Project) : Path :=
  p.coordinate.outputFile p.directory w.settings.buildDir.val w.settings.descriptorDir.val

/-- Emits the documents of projects one after the other, from position `i` on. -/
def emitFrom (force : Bool) (memo : Memo) (i : Nat) : List Project → Hosting (List Emission)
  | [] => return []
  | p :: ps => do
    if p.descriptor.enabled then
      let w ← here
      let (d, memo) ← w.documentAt memo i p
      let e ← caching (Emission.emit force (d.text false) (w.outputOf p) p.coordinate)
      return e :: (← emitFrom force memo (i + 1) ps)
    else
      Task.report [⟨.debug, .host, Subsystem.emit.say
        (p.descriptor.name ++ ": no moduleId, no descriptor")⟩]
      emitFrom force memo (i + 1) ps

/-- Emits the documents of all modules that have one, and saves the cache. -/
def finalize (force : Bool) : Hosting (List Emission) := do
  let w ← here
  Task.ofExcept w.requireConfigured
  Task.ensuring (emitFrom force [] 0 w.projects) (caching Cache.save)

end Workspace

end ModulePins
