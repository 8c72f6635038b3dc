import ModulePins.DirectoryTree.Basic
import ModulePins.Log

/-!
# Discovery

The walk that finds the modules of a workspace: every directory below the root that holds a module
file, unless a directory on the way to it has an excluded name. Directories are visited depth first
and by name, so a module comes before those below it. A directory that cannot be read is noted, and
the walk goes on beside it. Of two directories with the same address the first one counts.

## Main definitions

* `WalkRules.decide` — what happens to an entry;
* `WalkRules.visits` — the directories of a walk with their entries, in walk order;
* `WalkRules.walkWith` — a walk that registers modules on its way;
* `WalkRules.walk` — the `Discovery` that the visits amount to, with the log.
-/

namespace ModulePins

/-- What happens to an entry. -/
inductive VisitDecision where
  | descend
  | skipSubtree
  | recordModule
  | ignore
  deriving DecidableEq, Repr

namespace VisitDecision

def word : VisitDecision → String
  | descend => "descend"
  | skipSubtree => "skip-subtree"
  | recordModule => "record-module"
  | ignore => "ignore"

end VisitDecision

/-- What a walk looks for and what it leaves out. -/
structure WalkRules where
  moduleFile : String
  excludeDirs : List String
  separator : String
  deriving DecidableEq, Repr

/-- A module that was found. -/
structure FoundModule where
  address : String
  segments : Segments
  directory : Path
  deriving DecidableEq, Repr

/-- What a walk found. -/
structure Discovery where
  root : Path
  modules : List FoundModule
  /-- The directories that could not be read, each with the reason. -/
  errors : List (Path × String)
  /-- The directories that were left out. -/
  skipped : List Path
  deriving DecidableEq, Repr

namespace Discovery

/-- The addresses of the modules, in walk order. -/
def addresses (d : Discovery) : List String := d.modules.map FoundModule.address

end Discovery

/-- A directory of a walk, with its entries in walk order if it can be read. -/
structure Visit where
  segments : Segments
  listing : Except ListingFault (List TreeEntry)

namespace WalkRules

/-- The rules that settings lay down. -/
def ofSettings (s : Settings) : WalkRules :=
  ⟨s.moduleFile.val, s.excludeDirs, s.separator.val⟩

/-- The rules of the packaged defaults. -/
def standard : WalkRules := ofSettings .standard

/-- Is one of the names excluded? -/
def excludes (r : WalkRules) (segments : Segments) : Bool :=
  segments.any r.excludeDirs.contains

/-- What happens to an entry of the directory at the names. A module file of the root itself is
ignored. -/
def decide (r : WalkRules) (segments : Segments) (e : TreeEntry) : VisitDecision :=
  if e.isDir then
    if r.excludes (segments ++ [e.name]) then .skipSubtree else .descend
  else if e.name = r.moduleFile ∧ segments ≠ [] then .recordModule
  else .ignore

/-- The names of the entries on which a decision falls. -/
def chosen (r : WalkRules) (decision : VisitDecision) (segments : Segments)
    (entries : List TreeEntry) : List String :=
  (entries.filter fun e => r.decide segments e = decision).map TreeEntry.name

/-- The directories from the given names on, each before those below it. -/
def visitsFrom (r : WalkRules) (t : DirectoryTree) (segments : Segments) : List Visit :=
  match listed : t.list segments with
  | .error fault => [⟨segments, .error fault⟩]
  | .ok entries =>
    let ordered := entries.mergeSort TreeEntry.before
    ⟨segments, .ok ordered⟩ ::
      (r.chosen .descend segments ordered).flatMap fun name =>
        have := t.bounded segments entries listed
        visitsFrom r t (segments ++ [name])
  termination_by t.depth - segments.length
  decreasing_by
    simp only [List.length_append, List.length_singleton]
    omega

/-- The directories of a walk. -/
def visits (r : WalkRules) (t : DirectoryTree) : List Visit := r.visitsFrom t []

/-- Does a visit find a module? -/
def finds (r : WalkRules) (v : Visit) : Bool :=
  match v.listing with
  | .ok entries => !(r.chosen .recordModule v.segments entries).isEmpty
  | .error _ => false

/-- The modules of visits, without those whose address is among `seen` or was found before. -/
def modulesOf (r : WalkRules) (t : DirectoryTree) (seen : List String) :
    List Visit → List FoundModule
  | [] => []
  | v :: vs =>
    let address := Address.format r.separator v.segments
    if r.finds v && !seen.contains address then
      ⟨address, v.segments, t.pathOf v.segments⟩ :: modulesOf r t (address :: seen) vs
    else modulesOf r t seen vs

/-- The directory of a visit that failed, with the reason. -/
def errorOf? (t : DirectoryTree) (v : Visit) : Option (Path × String) :=
  match v.listing with
  | .ok _ => none
  | .error fault => some (t.pathOf v.segments, fault.message)

/-- The directories that a visit leaves out. -/
def skippedOf (r : WalkRules) (t : DirectoryTree) (v : Visit) : List Path :=
  match v.listing with
  | .ok entries =>
    (r.chosen .skipSubtree v.segments entries).map fun name => t.pathOf (v.segments ++ [name])
  | .error _ => []

/-- What visits amount to. -/
def result (r : WalkRules) (t : DirectoryTree) (vs : List Visit) : Discovery where
  root := t.root
  modules := r.modulesOf t [] vs
  errors := vs.filterMap (errorOf? t)
  skipped := vs.flatMap (r.skippedOf t)

/-! ### Registration -/

variable {m : Type → Type} [Monad m]

/-- Goes through the directories from the given names on and adds to a discovery what they hold.
A module is given to `register` when it is found. -/
def visitWith (r : WalkRules) (t : DirectoryTree) (register : String → m Unit)
    (segments : Segments) (d : Discovery) : m Discovery :=
  match listed : t.list segments with
  | .error fault => pure { d with errors := d.errors ++ [(t.pathOf segments, fault.message)] }
  | .ok entries => do
    let v : Visit := ⟨segments, .ok (entries.mergeSort TreeEntry.before)⟩
    let address := Address.format r.separator segments
    let found := r.finds v && !d.addresses.contains address
    if found then register address
    let modules :=
      if found then d.modules ++ [⟨address, segments, t.pathOf segments⟩] else d.modules
    (r.chosen .descend segments (entries.mergeSort TreeEntry.before)).foldlM
      (fun d name =>
        have := t.bounded segments entries listed
        visitWith r t register (segments ++ [name]) d)
      { d with modules, skipped := d.skipped ++ r.skippedOf t v }
  termination_by t.depth - segments.length
  decreasing_by
    simp only [List.length_append, List.length_singleton]
    omega

/-- Walks a tree and calls `register` with the address of each module when the walk comes to it. -/
def walkWith (r : WalkRules) (t : DirectoryTree) (register : String → m Unit) : m Discovery :=
  r.visitWith t register [] ⟨t.root, [], [], []⟩

/-! ### The log -/

/-- The record of a module. -/
def foundRecord (m : FoundModule) : Record :=
  ⟨.info, .discovery, Subsystem.discovery.say
    ("Found module " ++ Text.quoted m.address ++ " at " ++ m.directory.toString)⟩

/-- The record of a directory that could not be read. -/
def errorRecord (e : Path × String) : Record :=
  ⟨.warning, .discovery, Subsystem.discovery.say
    ("Cannot read " ++ e.1.toString ++ ", skipping subtree: " ++ e.2)⟩

/-- The records of one visit. -/
def visitLog (t : DirectoryTree) (modules : List FoundModule) (v : Visit) : List Record :=
  (modules.filter fun m => m.segments = v.segments).map foundRecord ++
    ((errorOf? t v).map errorRecord).toList

/-- The record at the end of a walk. -/
def scannedRecord (d : Discovery) : Record :=
  ⟨.info, .discovery, Subsystem.discovery.say
    ("Scanned " ++ d.root.toString ++ ": " ++ toString d.modules.length ++ " modules, " ++
      toString d.errors.length ++ " errors, " ++ toString d.skipped.length ++ " skipped dirs")⟩

/-- Walks a tree. -/
def walk (r : WalkRules) (t : DirectoryTree) : Discovery × List Record :=
  let vs := r.visits t
  let d := r.result t vs
  (d, vs.flatMap (visitLog t d.modules) ++ [scannedRecord d])

end WalkRules

end ModulePins
