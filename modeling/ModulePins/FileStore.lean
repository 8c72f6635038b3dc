import ModulePins.Path

/-!
# File store

The files that a workspace is read from and written to: a finite map from *locations* (absolute
lists of component names) to nodes. A node is a directory, a regular file with its bytes, or a
symbolic link with the text of its target.

A path is looked up component by component (`FileStore.locate`): `..` leads to the directory above,
a link is replaced by its target, and at most `linkLimit` links are replaced in one look-up. The
last component may be missing; every other one must be a directory.

* `FileStore.kind?`, `exists?`, `isFile?`, `isDir?` — what a path leads to;
* `FileStore.readBytes`, `writeBytes`, `makeDirs`, `replace`, `list`, `remove` — the operations;
* `FileStore.realPath` — the location of a path without links and `..`; missing components stay as
  they are written.

An operation that fails reports a `FileError`: the cause and the path it was applied to. All but
`makeDirs` then leave the store as it was.
-/

namespace ModulePins

/-- Why a file operation failed. -/
inductive FileCause where
  | notFound
  | notADirectory
  | isADirectory
  | alreadyExists
  | tooManyLinks
  | nameTooLong
  | busy
  | notEmpty
  | denied
  deriving DecidableEq, Repr, Inhabited

/-- A failed file operation. -/
structure FileError where
  cause : FileCause
  path : String
  deriving DecidableEq, Repr

/-- The system's number and words for a cause. -/
def FileCause.describe : FileCause → Nat × String
  | notFound => (2, "No such file or directory")
  | notADirectory => (20, "Not a directory")
  | isADirectory => (21, "Is a directory")
  | alreadyExists => (17, "File exists")
  | tooManyLinks => (40, "Too many levels of symbolic links")
  | nameTooLong => (36, "File name too long")
  | busy => (16, "Device or resource busy")
  | notEmpty => (39, "Directory not empty")
  | denied => (13, "Permission denied")

/-- The message of a failed operation; the path is put in by the caller in its shown form. -/
def FileCause.message (c : FileCause) (shownPath : String) : String :=
  let (number, words) := c.describe
  "[Errno " ++ toString number ++ "] " ++ words ++ ": " ++ shownPath

/-- What a location holds. -/
inductive FileNode where
  | directory
  | file (bytes : ByteArray)
  | link (target : String)
  deriving Inhabited

/-- An absolute list of component names. -/
abbrev Location := List String

/-- The nodes by location, in order of creation, and the directory that relative paths start from.
The root directory `[]` is always there. -/
structure FileStore where
  nodes : List (Location × FileNode)
  current : Location
  deriving Inhabited

namespace FileStore

/-- An empty store. -/
def empty : FileStore := ⟨[], []⟩

/-- The most links that one look-up follows. -/
def linkLimit : Nat := 40

/-- The longest component name, in bytes. -/
def nameLimit : Nat := 255

/-- The node at a location. -/
def node? (s : FileStore) (l : Location) : Option FileNode :=
  if l = [] then some .directory else (s.nodes.find? fun e => e.1 = l).map (·.2)

/-- Puts a node at a location: over the old one, or at the end. -/
def put (s : FileStore) (l : Location) (n : FileNode) : FileStore :=
  if s.nodes.any fun e => e.1 = l then
    { s with nodes := s.nodes.map fun e => if e.1 = l then (l, n) else e }
  else { s with nodes := s.nodes ++ [(l, n)] }

/-- Takes away a location. -/
def drop (s : FileStore) (l : Location) : FileStore :=
  { s with nodes := s.nodes.filter fun e => e.1 ≠ l }

/-- The names directly below a location, with their nodes. -/
def children (s : FileStore) (l : Location) : List (String × FileNode) :=
  s.nodes.filterMap fun e =>
    match e.1.reverse with
    | name :: above => if above.reverse = l then some (name, e.2) else none
    | [] => none

/-- Walks on from the directory `here` along the components; `links` bounds the links that may
still be replaced. With `followLast` a link in last place is replaced too. -/
def locateFrom (s : FileStore) (followLast : Bool) (links : Nat) (here : Location)
    (rest : List String) : Except FileCause Location :=
  match rest with
  | [] => .ok here
  | name :: rest =>
    if name = ".." then locateFrom s followLast links here.dropLast rest
    else if nameLimit < name.utf8ByteSize then .error .nameTooLong
    else
      let there := here ++ [name]
      match s.node? there with
      | none => if rest.isEmpty then .ok there else .error .notFound
      | some (.file _) => if rest.isEmpty then .ok there else .error .notADirectory
      | some .directory => locateFrom s followLast links there rest
      | some (.link target) =>
        if rest.isEmpty && !followLast then .ok there
        else
          match links with
          | 0 => .error .tooManyLinks
          | links + 1 =>
            let path := Path.ofString target
            locateFrom s followLast links (if path.isAbsolute then [] else here)
              (path.parts ++ rest)
  termination_by (links, rest.length)

/-- Where the components of a path start. -/
def start (s : FileStore) (p : Path) : Location :=
  if p.isAbsolute then [] else s.current

/-- The directory that relative paths start from, as a path. -/
def currentPath (s : FileStore) : Path := ⟨.root, s.current⟩

/-- The location that a path leads to; its last component may be missing. -/
def locate (s : FileStore) (p : Path) (followLast : Bool) : Except FileError Location :=
  (locateFrom s followLast linkLimit (s.start p) p.parts).mapError fun c => ⟨c, p.toString⟩

/-- The node that a path leads to, links followed; `none` if there is nothing there. A name that
is too long is an error, everything else that bars the way means that nothing is there. -/
def kind? (s : FileStore) (p : Path) : Except FileError (Option FileNode) :=
  match s.locate p true with
  | .ok l => .ok (s.node? l)
  | .error e => if e.cause = .nameTooLong then .error e else .ok none

def exists? (s : FileStore) (p : Path) : Except FileError Bool :=
  return (← s.kind? p).isSome

def isFile? (s : FileStore) (p : Path) : Except FileError Bool := do
  match ← s.kind? p with
  | some (.file _) => return true
  | _ => return false

def isDir? (s : FileStore) (p : Path) : Except FileError Bool := do
  match ← s.kind? p with
  | some .directory => return true
  | _ => return false

/-- The bytes of the regular file that a path leads to. -/
def readBytes (s : FileStore) (p : Path) : Except FileError ByteArray := do
  let l ← s.locate p true
  match s.node? l with
  | some (.file bytes) => return bytes
  | some _ => throw ⟨.isADirectory, p.toString⟩
  | none => throw ⟨.notFound, p.toString⟩

/-- Writes a regular file, through links; the directory it is in must be there. -/
def writeBytes (s : FileStore) (p : Path) (bytes : ByteArray) : Except FileError FileStore := do
  let l ← s.locate p true
  match s.node? l with
  | some .directory => throw ⟨.isADirectory, p.toString⟩
  | _ => return s.put l (.file bytes)

/-- Makes one directory. -/
def makeDir (s : FileStore) (p : Path) : Except FileError FileStore := do
  let l ← s.locate p false
  match s.node? l with
  | some _ => throw ⟨.alreadyExists, p.toString⟩
  | none => return s.put l .directory

/-- Makes a directory and, where they are missing, those above it; one that is already there is
left as it is, and those that have been made stay if another one cannot be. `depth` bounds the
number of missing directories. -/
def makeDirsFrom (s : FileStore) (p : Path) : Nat → Except FileError Unit × FileStore
  | 0 => (.error ⟨.notFound, p.toString⟩, s)
  | depth + 1 =>
    match s.makeDir p with
    | .ok s' => (.ok (), s')
    | .error e =>
      if e.cause = .notFound then
        if p.parts.isEmpty then (.error e, s)
        else
          match makeDirsFrom s p.parent depth with
          | (.error e, s') => (.error e, s')
          | (.ok (), s') =>
            match s'.makeDir p with
            | .ok s'' => (.ok (), s'')
            | .error e => (settle s' e, s')
      else (settle s e, s)
where
  /-- A directory that exists is fine. -/
  settle (s : FileStore) (e : FileError) : Except FileError Unit :=
    match s.isDir? p with
    | .error e' => .error e'
    | .ok true => .ok ()
    | .ok false => .error e

def makeDirs (s : FileStore) (p : Path) : Except FileError Unit × FileStore :=
  makeDirsFrom s p (p.parts.length + 1)

/-- Moves the file at `source` to `target` and replaces what is there, unless it is a directory. -/
def replace (s : FileStore) (source target : Path) : Except FileError FileStore := do
  let l ← s.locate source false
  match s.node? l with
  | none => throw ⟨.notFound, source.toString⟩
  | some n =>
    let t ← s.locate target false
    if target.name = ".." then throw ⟨.busy, source.toString⟩
    match s.node? t with
    | some .directory => throw ⟨.isADirectory, source.toString⟩
    | _ => return (if l = t then s else (s.drop l).put t n)

/-- The entries of a directory: name, and whether it is a directory itself (a link is not). -/
def list (s : FileStore) (p : Path) : Except FileError (List (String × Bool)) := do
  let l ← s.locate p true
  match s.node? l with
  | none => throw ⟨.notFound, p.toString⟩
  | some .directory =>
    return (s.children l).map fun e => (e.1, match e.2 with | .directory => true | _ => false)
  | some _ => throw ⟨.notADirectory, p.toString⟩

/-- Makes a symbolic link; nothing may be there yet. -/
def makeLink (s : FileStore) (p : Path) (target : String) : Except FileError FileStore := do
  let l ← s.locate p false
  match s.node? l with
  | some _ => throw ⟨.alreadyExists, p.toString⟩
  | none => return s.put l (.link target)

/-- Removes a file, a link, or a directory with everything below it. -/
def remove (s : FileStore) (p : Path) : Except FileError FileStore := do
  let l ← s.locate p false
  match s.node? l with
  | none => throw ⟨.notFound, p.toString⟩
  | some .directory => return { s with nodes := s.nodes.filter fun e => !l.isPrefixOf e.1 }
  | some _ => return s.drop l

/-- Replaces links from the place `here` on; `opened` holds the links whose targets are being
walked. A link met again while it is open is left in place with what follows it, and the result is
marked as unfinished. `depth` bounds how many links are open at once. -/
def realFrom (s : FileStore) (opened : List Location) (here : Location) (rest : List String) :
    Nat → Location × Bool
  | 0 => (here ++ rest, false)
  | depth + 1 => walk depth here rest
where
  /-- Walks the components in turn. -/
  walk (depth : Nat) (here : Location) : List String → Location × Bool
    | [] => (here, true)
    | ".." :: rest => walk depth here.dropLast rest
    | name :: rest =>
      let there := here ++ [name]
      let target? :=
        if nameLimit < name.utf8ByteSize then none
        else
          match s.node? there with
          | some (.link target) => some target
          | _ => none
      match target? with
      | none => walk depth there rest
      | some target =>
        if opened.contains there then (there ++ rest, false)
        else
          let path := Path.ofString target
          match realFrom s (there :: opened) (if path.isAbsolute then [] else here) path.parts
              depth with
          | (there', true) => walk depth there' rest
          | (there', false) => (there' ++ rest, false)

/-- Drops each `..` together with the component before it. -/
def collapseDots (parts : List String) : List String :=
  (parts.foldl (fun (back : List String) p => if p = ".." then back.drop 1 else p :: back)
    []).reverse

/-- The path as a location without links and `..`; a look-up that runs in a circle of links
fails. -/
def realPath (s : FileStore) (p : Path) : Except FileError Path := do
  let (l, _) := realFrom s [] (s.start p) p.parts (s.nodes.length + 1)
  let path : Path := ⟨.root, collapseDots l⟩
  match s.locate path true with
  | .error e => if e.cause = .tooManyLinks then throw e else return path
  | .ok _ => return path

/-- The locations of everything that is not a directory. -/
def files (s : FileStore) : List Location :=
  s.nodes.filterMap fun e => match e.2 with | .directory => none | _ => some e.1

end FileStore

end ModulePins
