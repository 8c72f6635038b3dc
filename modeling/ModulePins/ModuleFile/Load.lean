import ModulePins.MappingFile
import ModulePins.ModuleFile.Basic

/-!
# Reading module files

* `ModuleFile.load` — the module file at a path;
* `ModuleFile.apply` — its declarations made on a descriptor, with their records.
-/

namespace ModulePins

namespace ModuleFile

/-- The module file at a path. -/
def load (p : Path) : Task Session ModuleFile := do
  if !(← Session.ask (·.isFile? p)) then
    throw (.reading .moduleFile "Module file not found" (some p.toString))
  let es ← MappingFile.load .moduleFile p
  Task.ofExcept (validate es (some p.toString))

/-- Makes the declarations of a module file on a descriptor; without any, nothing is done. -/
def apply (m : ModuleFile) (d : Descriptor) : Replayed :=
  match m.descriptor with
  | none => ⟨d, [], none⟩
  | some decl => replay decl d

end ModuleFile

end ModulePins
