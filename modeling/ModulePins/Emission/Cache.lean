import ModulePins.Emission.CacheState
import ModulePins.Json.Printer
import ModulePins.Json.Reader
import ModulePins.Task

/-!
# The emission cache

A cache state together with the place where it is kept: a file, or memory only. It is read when it
is first needed, and saved on request if it has changed. A file that holds no cache counts as an
empty one, since the worst that an empty cache brings about is that every document is written once
more.

* `Cache.load`, `Cache.current` — reading the state;
* `Cache.upToDate`, `Cache.record`, `Cache.invalidate` — one output file;
* `Cache.save` — writing the state, by way of a temporary file.
-/

namespace ModulePins

/-- A cache: where it is kept, its state once it has been read, and whether it has changed. -/
structure Cache where
  path : Option Path
  state : Option CacheState
  changed : Bool
  deriving DecidableEq

/-- A task that works with a cache. -/
abbrev Caching (α : Type) := Task (Cache × Session) α

namespace Cache

/-- A cache that is kept in a file, or in memory only. -/
def opened (path : Option Path) : Cache := ⟨path, none, false⟩

/-- A record about the cache. -/
def note (level : Level) (message : String) : Record :=
  ⟨level, .cache, Subsystem.emit.say message⟩

/-- The record of a file that holds no cache. -/
def brokenRecord (reason : String) : Record :=
  note .warning ("Failed to load descriptor cache, starting empty: " ++ reason)

/-- The state that the text of a file writes; it has none if the text is no cache. -/
def parse (now : Stamp) (s : List Char) : Except Fault (Option CacheState) :=
  match Json.read s with
  | .ok v => .ok (CacheState.ofJson? now v)
  | .error .malformed => .ok none
  | .error (.tooManyDigits n) => .error (.value (.tooManyDigits n))

/-- The state in a cache file. -/
def read (path : Path) : Task Session CacheState := do
  let read? ← tryCatch (some <$> Session.readText path) fun
    | .file e => do
      Session.report [brokenRecord (Fault.file e).message]
      return none
    | f => throw f
  match read? with
  | none => return .empty
  | some text =>
    match ← Task.ofExcept (parse (← get).now text) with
    | some s =>
      Session.report [note .debug ("Loaded descriptor cache from " ++ path.toString)]
      return s
    | none =>
      Session.report [brokenRecord "not a cache document"]
      return .empty

/-- Reads the cache anew; what has not been saved is lost. -/
def load : Caching CacheState := do
  let c ← Task.part
  let s ←
    match c.path with
    | some path =>
      if ← Task.session (Session.ask (·.exists? path)) then Task.session (read path)
      else pure .empty
    | none => pure .empty
  Task.setPart ⟨c.path, some s, false⟩
  return s

/-- The state of the cache, read if it has not been yet. -/
def current : Caching CacheState := do
  match (← Task.part).state with
  | some s => return s
  | none => load

/-- The key of an output file: its path without links and `..`. -/
def key (output : Path) : Caching String := do
  return (← Task.session (Session.realPath output)).toString

/-- Is the file there, and was it last written from a document with this digest? -/
def upToDate (output : Path) (hash : String) : Caching Bool := do
  let s ← current
  match s.entry? (← key output) with
  | some e =>
    if e.hash = hash then Task.session (Session.ask (·.isFile? output)) else return false
  | none => return false

/-- Changes the state. -/
def update (s : CacheState) : Caching Unit := do
  Task.setPart { (← Task.part) with state := some s, changed := true }

/-- Notes that a document with this digest was written to the file. -/
def record (output : Path) (hash : String) : Caching Unit := do
  let s ← current
  let key ← key output
  update (s.record key ⟨hash, (← get).2.now⟩)

/-- Forgets the file. -/
def invalidate (output : Path) : Caching Unit := do
  let s ← current
  let key ← key output
  if (s.entry? key).isSome then update (s.forget key)

/-- Writes a text to a file by way of a temporary one beside it. -/
def replaceFile (path : Path) (text : String) : Task Session Unit := do
  Session.makeDirs path.parent
  let temporary := path.withSuffix ".tmp"
  Session.change (·.writeBytes temporary text.toUTF8)
  Session.change (·.replace temporary path)

/-- Saves the cache if it is kept in a file and has changed. -/
def save : Caching Unit := do
  let c ← Task.part
  match c.state, c.path with
  | some s, some path =>
    if c.changed then
      Task.session (replaceFile path (s.toJson.toText .ascii))
      Task.setPart { c with changed := false }
      Task.report [note .debug ("Saved descriptor cache to " ++ path.toString)]
    else
      Task.report [note .debug "Descriptor cache unchanged, skipping save"]
  | _, _ => return ()

end Cache

end ModulePins
