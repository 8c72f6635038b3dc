import ModulePins.CommandLine.Request
import ModulePins.Console
import ModulePins.Release
import ModulePins.Workspace.Publish

/-!
# Running commands

What each command does, what it shows, and the status it ends with. A failure of the program's own
is shown as one line and ends with status 1; any other failure ends with status 1 too and is handed
on. Arguments that cannot be read end with status 2.

* `Command.execute` — one command;
* `CommandLine.run` — a whole run, from the arguments to its `CommandOutcome`.
-/

namespace ModulePins

/-- A task that shows things. -/
abbrev Showing (α : Type) := Task (Screen × Session) α

namespace Showing

/-- Shows a thing. -/
def put (i : ConsoleItem) : Showing Unit := do
  Task.setPart ((← Task.part).put i)

/-- Writes a line of plain output. -/
def write (line : String) : Showing Unit := do
  Task.setPart ((← Task.part).write line)

/-- A task on a workspace, with the workspace that results. -/
def onWorkspace {α : Type} (w : Workspace) (t : Hosting α) : Showing (α × Workspace) :=
  Task.focus (fun both => (w, both.2)) (fun part both => (both.1, part.2)) do
    let a ← t
    return (a, ← Workspace.here)

/-- The workspace in a directory, configured. -/
def configured (root : Path) : Showing Workspace := do
  let w ← Task.session (Workspace.create root none false)
  let ((), w) ← onWorkspace w Workspace.configure
  return w

end Showing

namespace Command

open Showing

/-- Runs `t` if the workspace directory is there. -/
def onDirectory (root : Path) (t : Showing Unit) : Showing Nat := do
  if ← Task.session (Session.ask (·.isDir? root)) then
    t
    return 0
  else
    put (.error ("Workspace root not found: " ++ root.toString))
    return 1

/-- The addresses of the modules, in the order of discovery. -/
def runDiscover (root : Path) : Showing Unit := do
  let root ← Task.session (Session.realPath root)
  let settings ← Task.session (Settings.load root)
  let tree ← Task.session (Session.ask fun files => .ok (files.tree root))
  let (d, log) := (WalkRules.ofSettings settings).walk tree
  Task.report log
  d.addresses.forM fun a => write (Address.label settings.separator a)
  d.errors.forM fun e => put (.warning ("Skipped " ++ e.1.toString ++ ": " ++ e.2))

/-- What is shown of a module. -/
def moduleRow (w : Workspace) (p : Project) : Json :=
  .object
    [("address", .str (w.label p.address)),
     ("parent", .ofOption ((w.parentOf p).map fun q => w.label q.address)),
     ("path", .str p.directory.toString),
     ("coordinate", .str p.coordinate.text),
     ("moduleId", .ofOption p.descriptor.moduleId)]

/-- The modules as data. -/
def runModules (root : Path) : Showing Unit := do
  let w ← configured root
  write ((Json.array (w.projects.map (moduleRow w))).toText .unicode)

/-- A yes or a no. -/
def answer (b : Bool) : String := if b then "yes" else "no"

/-- The table of a standard pin, with sensitive defaults masked. -/
def pinTable (mnemonic : String) (p : Pin) : ConsoleItem :=
  .table (mnemonic ++ (if p.required then " (required)" else " (optional)"))
    ["Key", "Required", "Sensitive", "Default", "Description"]
    (p.properties.map fun q =>
      [q.key, answer q.required, answer q.sensitive, q.shownDefault, q.description])

/-- One standard pin, or all of them. -/
def runCatalog (mnemonic : Option String) : Showing Unit := do
  let mnemonics := (mnemonic.map fun m => [m]).getD Catalog.available
  mnemonics.forM fun m => do
    let p ← Task.ofExcept (Catalog.require m)
    put (pinTable m p)
    put (.info p.id)

/-- The document of a module, with sensitive defaults masked. -/
def runShow (address : String) (root : Path) : Showing Unit := do
  let w ← configured root
  let (text, _) ← onWorkspace w (Workspace.render address true)
  write text

/-- The row of an emission. -/
def emissionRow (root : Path) (e : Emission) : Except Fault (List String) :=
  match e.output.under? root with
  | some p => .ok [e.artifact.coordinate.text, e.status.word, p.toString]
  | none => .error (.value (.notBelow e.output.toString root.toString))

/-- Writes the documents of all modules. -/
def runGenerate (root : Path) (force : Bool) : Showing Unit := do
  let w ← configured root
  put (.header "Generate descriptors" w.root.toString)
  let (results, _) ← onWorkspace w (Workspace.finalize force)
  if results.isEmpty then
    put (.warning "No module declares a moduleId; nothing to generate")
  else
    let rows ← Task.ofExcept (results.mapM (emissionRow w.root))
    put (.table "Descriptors" ["Artifact", "Status", "File"] rows)
    let written := results.countP Emission.isWritten
    put (.success (toString written ++ " written, " ++ toString (results.length - written) ++
      " up-to-date"))

/-- Runs a command; the result is the status. -/
def execute : Command → Showing Nat
  | discover root => onDirectory root (runDiscover root)
  | modules root => onDirectory root (runModules root)
  | catalog mnemonic => do
    runCatalog mnemonic
    return 0
  | .show address root => onDirectory root (runShow address root)
  | generate root force => onDirectory root (runGenerate root force)
  | version => do
    write (Release.programName ++ " " ++ Release.version)
    return 0

end Command

/-- How a run ended. -/
structure CommandOutcome where
  status : Nat
  screen : Screen
  /-- The lines of the log that were to be shown. -/
  logText : String
  /-- A failure that is not the program's own. -/
  raised : Option Fault

namespace CommandLine

/-- The threshold of the log. -/
def levelOf (verbose : Bool) : Level := if verbose then .debug else .warning

/-- The lines of records that pass a threshold. -/
def logText (level : Level) (records : List Record) : String :=
  let start := Journal.empty.configure level ⟨0, LineFormat.standard⟩
  (records.foldl (fun j r => j.write r.level r.source r.message) start).contents 0

/-- Runs a command and shows a failure of the program's own. -/
def guarded (c : Command) : Showing Nat :=
  tryCatch c.execute fun f => do
    if f.isOwn then
      Task.report [⟨.debug, .commandLine, Subsystem.cli.say ("Command failed: " ++ f.shown)⟩]
      Showing.put (.error f.message)
      return 1
    else throw f

/-- A whole run; the records it makes are added to the log of the session. -/
def run (arguments : List String) (s : Session) : CommandOutcome × Session :=
  match Request.ofArguments arguments with
  | .help => (⟨0, .empty, "", none⟩, s)
  | .unclear => (⟨2, .empty, "", none⟩, s)
  | .run verbose c =>
    let (r, screen, s') := ((guarded c).run).run (Screen.empty, s)
    let text := logText (levelOf verbose) (s'.log.drop s.log.length)
    match r with
    | .ok status => (⟨status, screen, text, none⟩, s')
    | .error f => (⟨1, screen, text, some f⟩, s')

end CommandLine

end ModulePins
