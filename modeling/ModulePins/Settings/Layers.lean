import ModulePins.MappingFile
import ModulePins.Settings.Basic

/-!
# Layered settings

The packaged defaults are always there. A workspace may override them in a file of its state
directory, in a section of its own or at the root of the file: mappings are merged at every depth,
and everything else is replaced. Only the result is checked.

* `Settings.validate` — checked members, with all issues in one message;
* `Settings.overrides?` — the members of the override file, if there is one;
* `Settings.load` — the settings of a workspace.
-/

namespace ModulePins

namespace Settings

/-- The root of a workspace: the one that was chosen, else the current directory. -/
def chosenRoot (chosen : Option Path) (current : Path) : Path := chosen.getD current

/-- The directory below the workspace root that holds settings and cache. -/
def stateDir (root : Path) : Path := root / ".water"

/-- The file with the overrides of a workspace. -/
def overridePath (root : Path) : Path := stateDir root / "config.yaml"

/-- The section of a file that holds the settings. -/
def sectionName : String := "workspace"

/-- The settings that members write, or all their issues in one message. -/
def validate (es : Schema.Members) (path : Option String) : Except Fault Settings :=
  match check es with
  | .pass s => .ok s
  | .fail issues => .error (.reading .validation (Issue.report subject issues) path)

/-- The settings part of a file: its section, or all of it. -/
def section? (es : List (Value × Value)) : Value :=
  (Value.entry? (.str sectionName) es).getD (.mapping es)

/-- Where the packaged defaults lie. -/
def defaultsPath (home : Path) : Path := (home / "config") / "default.yaml"

/-- The packaged defaults. -/
def loadDefaults : Task Session (List (Value × Value)) := do
  let path := defaultsPath (← get).home
  Session.say .debug .reading ("Loaded YAML from " ++ path.toString)
  return defaults

/-- What an override file says, if it is there. -/
def overrides? (path : Path) : Task Session (Option Value) := do
  if ← Session.ask (·.exists? path) then
    return some (section? (← MappingFile.load .parsing path))
  else
    Session.say .debug .settings
      (Subsystem.config.say ("No workspace config at " ++ path.toString))
    return none

/-- The defaults with what an override says; a blank override says nothing. -/
def override (base : List (Value × Value)) : Value → Except Fault (List (Value × Value))
  | .mapping es => .ok (Value.merge base es)
  | v => .error (.value (.noMember v.kindName "items"))

/-- The settings with the overrides of a file. -/
def loadFrom (path : Path) : Task Session Settings := do
  let base ← loadDefaults
  match ← overrides? path with
  | some v =>
    if v.isBlank then
      Task.ofExcept (validate base (some (defaultsPath (← get).home).toString))
    else
      let merged ← Task.ofExcept (override base v)
      Session.say .debug .settings
        (Subsystem.config.say ("Applied workspace overrides from " ++ path.toString))
      Task.ofExcept (validate merged (some path.toString))
  | none => Task.ofExcept (validate base (some (defaultsPath (← get).home).toString))

/-- The settings of the workspace at a root. -/
def load (root : Path) : Task Session Settings := loadFrom (overridePath root)

end Settings

end ModulePins
