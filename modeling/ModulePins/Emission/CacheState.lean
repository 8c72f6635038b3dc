import ModulePins.Json.Basic
import ModulePins.Keyed
import ModulePins.Stamp
import ModulePins.Text.Basic

/-!
# Cache states

What an emission cache knows: for each output file the digest of the document that was last written
there, and when. A state is written as a JSON object and read back from one; what is read may leave
out the version, the entries and the times, and may write the version as a text, but may hold
nothing else.

* `CacheState.record`, `CacheState.forget`, `CacheState.entry?` — one output file;
* `CacheState.toJson`, `CacheState.ofJson?` — writing and reading.
-/

namespace ModulePins

/-- What is known of one output file. -/
structure CacheEntry where
  hash : String
  writtenAt : Stamp
  deriving DecidableEq

/-- What is known of all output files, by path. -/
structure CacheState where
  version : Int
  entries : List (String × CacheEntry)
  deriving DecidableEq

namespace CacheState

/-- Nothing is known. -/
def empty : CacheState := ⟨1, []⟩

/-- What is known of one output file. -/
def entry? (s : CacheState) (key : String) : Option CacheEntry :=
  (Keyed.find? Prod.fst key s.entries).map Prod.snd

/-- Notes what was written to an output file. -/
def record (s : CacheState) (key : String) (e : CacheEntry) : CacheState :=
  { s with entries := Keyed.put Prod.fst (key, e) s.entries }

/-- Forgets an output file. -/
def forget (s : CacheState) (key : String) : CacheState :=
  { s with entries := Keyed.erase Prod.fst key s.entries }

/-! ### As data -/

def entryToJson (e : CacheEntry) : Json :=
  .object [("input_hash", .str e.hash), ("written_at", .str (Stamp.text e.writtenAt))]

def toJson (s : CacheState) : Json :=
  .object
    [("version", .int s.version),
     ("entries", .object (s.entries.map fun e => (e.1, entryToJson e.2)))]

/-- A whole number, perhaps as a text or as a number with a blank fraction. -/
def wholeNumber? : Json → Option Int
  | .int i => some i
  | .bool b => some (if b then 1 else 0)
  | .float x => x.toInt?
  | .str s =>
    let body := Text.trim s.toList
    let whole := body.takeWhile (· ≠ '.')
    let fraction := body.dropWhile (· ≠ '.')
    if (fraction.drop 1).all (· = '0') && Text.trim whole = whole then Number.readInt? 10 whole
    else none
  | _ => none

/-- A version: a whole number that can be read again once it has been written. -/
def version? (v : Json) : Option Int := (wholeNumber? v).filter Number.isReadable

/-- The value of a member, if it is there. -/
def member? (k : String) (members : List (String × Json)) : Option Json :=
  (Keyed.find? Prod.fst k members).map Prod.snd

/-- Are all members among the given ones? -/
def onlyHas (ks : List String) (members : List (String × Json)) : Bool :=
  members.all fun m => ks.contains m.1

/-- An entry; one without a time gets the present one. -/
def entryOfJson? (now : Stamp) : Json → Option CacheEntry
  | .object members =>
    match member? "input_hash" members with
    | some (.str hash) =>
      let writtenAt? :=
        match member? "written_at" members with
        | some v => Stamp.ofJson? v
        | none => some now
      if onlyHas ["input_hash", "written_at"] members then writtenAt?.map fun t => ⟨hash, t⟩
      else none
    | _ => none
  | _ => none

/-- The entries, all of which have to be well-formed. -/
def entriesOfJson? (now : Stamp) : Json → Option (List (String × CacheEntry))
  | .object members => members.mapM fun m => (entryOfJson? now m.2).map fun e => (m.1, e)
  | _ => none

/-- The state that a value writes; both members may be left out. -/
def ofJson? (now : Stamp) : Json → Option CacheState
  | .object members => do
    let version ←
      match member? "version" members with
      | some v => version? v
      | none => some empty.version
    let entries ←
      match member? "entries" members with
      | some v => entriesOfJson? now v
      | none => some empty.entries
    if onlyHas ["version", "entries"] members then some ⟨version, entries⟩ else none
  | _ => none

end CacheState

end ModulePins
