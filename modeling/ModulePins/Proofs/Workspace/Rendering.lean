import ModulePins.Proofs.Task
import ModulePins.Proofs.Workspace.Configure
import ModulePins.Workspace.Publish

/-!
# What rendering answers

Rendering a module looks at the workspace and at nothing else: not at the files, not at the cache.
What it answers is `Workspace.rendering`, a document or a fault; masking is left to the text. Beside
that it adds to the log.

## Main definitions

* `Workspace.rendering` — the document of the module at an address, with the records of making it

## Main results

* `Workspace.exec_render_eq` — rendering, as an equation
-/

namespace ModulePins

namespace Workspace

open ModulePins.Task

variable {w : Workspace} {p : Project} {address : String}

/-- The document of a registered module, and the records of making it. -/
def renderingOf (w : Workspace) (p : Project) : Except Fault Document × List Record :=
  if p.descriptor.enabled then
    let v := Resolver.resolve w.registry [] ((w.position? p.address).getD 0)
    ((v.outcome.mapError Fault.inheritanceCycle).map (w.documentOf p), v.log)
  else
    (.error (.general ("Module " ++ Text.quoted p.descriptor.name ++
      " declares no moduleId; no descriptor")), [])

/-- The document of the module at an address, and the records of making it. -/
def rendering (w : Workspace) (address : String) : Except Fault Document × List Record :=
  match w.requireConfigured, w.get address with
  | .error f, _ | .ok (), .error f => (.error f, [])
  | .ok (), .ok p => w.renderingOf p

/-- **Rendering** gives a text of the document, and changes nothing but the log. -/
theorem exec_render_eq (w : Workspace) (address : String) (masked : Bool) (S : Session) :
    exec (render address masked) (w, S) =
      ((w.rendering address).1.map (·.text masked),
        (w, { S with log := S.log ++ (w.rendering address).2 })) := by
  rw [render, exec_bind, exec_here, rendering]
  dsimp only
  rw [exec_bind, exec_ofExcept]
  cases w.requireConfigured with
  | error f => simp [Except.map]
  | ok u =>
    dsimp only
    rw [exec_bind, exec_ofExcept]
    cases w.get address with
    | error f => simp [Except.map]
    | ok p =>
      dsimp only
      rw [renderingOf]
      cases henabled : p.descriptor.enabled with
      | false => simp [Except.map]
      | true =>
        rw [if_neg (by simp), if_pos rfl, exec_bind, documentAt, exec_bind, exec_report]
        dsimp only
        cases (Resolver.resolve w.registry [] ((w.position? p.address).getD 0)).outcome with
        | error cycle => rfl
        | ok pins => rfl

end Workspace

end ModulePins
