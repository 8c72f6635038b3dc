import ModulePins.CommandLine.Run
import Std.Time.DateTime

/-!
# The program

Reads the workspace directory from the disk into a file store, runs the command on it, writes back
what has changed, and prints what is to be shown. Nothing is decided here.
-/

namespace ModulePins

namespace Disk

/-- The entry of the disk at a location. -/
def entryAt (l : Location) : IO.FS.DirEntry :=
  ⟨⟨"/" ++ Text.join "/" l.dropLast⟩, l.getLast?.getD ""⟩

/-- The text of a location as a path. -/
def pathText (l : Location) : String := "/" ++ Text.join "/" l

/-- The location that the system gives for a path, links followed. -/
def realLocation? (path : String) : IO (Option Location) := do
  match ← (IO.FS.realPath path).toBaseIO with
  | .ok p => return some (Path.ofString p.toString).parts
  | .error _ => return none

/-- Puts what lies at a location into the store; with `deep`, also everything below it. A link that
leads nowhere is kept as one that leads to itself. -/
partial def read (deep : Bool) (s : FileStore) (l : Location) : IO FileStore := do
  match ← (entryAt l).path.symlinkMetadata.toBaseIO with
  | .error _ => return s
  | .ok m =>
    match m.type with
    | .dir =>
      let mut s := s.put l .directory
      if deep then
        for e in ← (entryAt l).path.readDir do
          s ← read true s (l ++ [e.fileName])
      return s
    | .file => return s.put l (.file (← IO.FS.readBinFile (pathText l)))
    | .symlink =>
      match ← realLocation? (pathText l) with
      | some target => read false (s.put l (.link (pathText target))) target
      | none => return s.put l (.link (l.getLast?.getD ""))
    | .other => return s

/-- Puts the directories on the way to a location into the store. -/
def readWay (s : FileStore) (l : Location) : IO FileStore :=
  (List.range l.length).foldlM (fun s n => read false s (l.take (n + 1))) s

/-- The store with a workspace directory in it. -/
def load (root : Option Path) : IO FileStore := do
  let current := (Path.ofString (← IO.currentDir).toString).parts
  let s ← readWay ⟨[], current⟩ current
  match root with
  | none => return s
  | some root =>
    let way := if root.isAbsolute then root.parts else current ++ root.parts
    let s ← readWay s way
    match ← realLocation? (pathText way) with
    | none => return s
    | some l => read true (← readWay s l) l

/-- Does a node hold these bytes? -/
def holds (bytes : ByteArray) : Option FileNode → Bool
  | some (.file old) => old == bytes
  | _ => false

/-- Writes back what has changed. -/
def save (before after : FileStore) : IO Unit := do
  for (l, n) in after.nodes do
    match n with
    | .directory => if (before.node? l).isNone then IO.FS.createDirAll (pathText l)
    | .file bytes =>
      if !holds bytes (before.node? l) then IO.FS.writeBinFile (pathText l) bytes
    | .link _ => pure ()
  for (l, _) in before.nodes do
    if (after.node? l).isNone then IO.FS.removeFile (pathText l)

/-- The present time. -/
def now : IO Stamp := do
  let t ← Std.Time.Timestamp.now
  return (Stamp.ofNumber? t.toSecondsSinceUnixEpoch.val).getD Stamp.epoch

end Disk

/-- Runs the program and shows the outcome. -/
def runProgram (arguments : List String) : IO UInt32 := do
  let request := Request.ofArguments arguments
  let root :=
    match request with
    | .run _ c => c.root?
    | _ => none
  let files ← Disk.load root
  let home := Path.ofString (← IO.appDir).toString
  let (o, s) := CommandLine.run arguments ⟨files, [], home, ← Disk.now⟩
  Disk.save files s.files
  IO.print o.screen.output
  for i in o.screen.items do
    for line in i.plain do IO.println line
  IO.eprint o.logText
  match request with
  | .run _ _ => pure ()
  | .help => IO.println Request.usage
  | .unclear => IO.eprintln Request.usage
  if let some f := o.raised then IO.eprintln f.message
  return UInt32.ofNat o.status

end ModulePins

def main (arguments : List String) : IO UInt32 := ModulePins.runProgram arguments
