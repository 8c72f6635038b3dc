import ModulePins.Fault
import ModulePins.Log
import ModulePins.Stamp

/-!
# Tasks

A task works on files and reports what it does. It may fail, and what it wrote and reported before
it failed stays. A part of the program with a state of its own works on that state beside the
session.

* `Task.focus`, `Task.session` — a task on a part of the state;
* `Task.part`, `Task.setPart` — the state beside the session;
* `Task.ensuring` — a task that is followed by another one, even if it fails.
-/

namespace ModulePins

/-- The files, the records so far, the directory that the program itself lies in, and the time. -/
structure Session where
  files : FileStore
  log : List Record
  home : Path
  now : Stamp
  deriving Inhabited

/-- A computation on a state `σ` that may fail; the state is kept if it does. -/
abbrev Task (σ α : Type) := ExceptT Fault (StateM σ) α

namespace Task

variable {σ τ α : Type}

/-- Fails. -/
def fail (f : Fault) : Task σ α := throw f

/-- The result of a computation that needs no state. -/
def ofExcept : Except Fault α → Task σ α
  | .ok a => pure a
  | .error f => throw f

/-- Runs a task on a part of the state. -/
def focus (get : τ → σ) (set : σ → τ → τ) (t : Task σ α) : Task τ α :=
  ExceptT.mk fun s =>
    let (r, part) := (t.run).run (get s)
    (r, set part s)

/-- Runs `after` behind `t` whether `t` fails or not. If both fail, the failure of `after`
counts. -/
def ensuring (t : Task σ α) (after : Task σ Unit) : Task σ α :=
  ExceptT.mk fun s =>
    let (r, s) := (t.run).run s
    match (after.run).run s with
    | (.ok _, s) => (r, s)
    | (.error f, s) => (.error f, s)

/-- A task on the session, run beside another state. -/
def session (t : Task Session α) : Task (σ × Session) α :=
  focus Prod.snd (fun s both => (both.1, s)) t

/-- The state beside the session. -/
def part : Task (σ × Session) σ := do return (← get).1

/-- Replaces the state beside the session. -/
def setPart (s : σ) : Task (σ × Session) Unit := modify fun both => (s, both.2)

end Task

namespace Session

/-- Adds records to the log. -/
def report (rs : List Record) : Task Session Unit :=
  modify fun s => { s with log := s.log ++ rs }

/-- Adds one record to the log. -/
def say (level : Level) (channel : Channel) (message : String) : Task Session Unit :=
  report [⟨level, channel, message⟩]

/-- Asks the file store. -/
def ask {α : Type} (query : FileStore → Except FileError α) : Task Session α := do
  Task.ofExcept ((query (← get).files).mapError Fault.file)

/-- Changes the file store. -/
def change (act : FileStore → Except FileError FileStore) : Task Session Unit := do
  let files ← ask act
  modify fun s => { s with files }

/-- Makes a directory and those above it; what has been made stays if the task fails. -/
def makeDirs (p : Path) : Task Session Unit := do
  let (made, files) := (← get).files.makeDirs p
  modify fun s => { s with files }
  Task.ofExcept (made.mapError Fault.file)

/-- The text of a file: its bytes in UTF-8, with unified line ends. -/
def readText (p : Path) : Task Session (List Char) := do
  let bytes ← ask (·.readBytes p)
  match String.fromUTF8? bytes with
  | some s => return Text.unifyNewlines s.toList
  | none => throw .notText

/-- The path without links and `..`. -/
def realPath (p : Path) : Task Session Path := do
  match (← get).files.realPath p with
  | .ok q => return q
  | .error e => throw (if e.cause = .tooManyLinks then .linkLoop e.path else .file e)

end Session

namespace Task

/-- Adds records to the log of the session. -/
def report {σ : Type} (rs : List Record) : Task (σ × Session) Unit := session (Session.report rs)

end Task

end ModulePins
