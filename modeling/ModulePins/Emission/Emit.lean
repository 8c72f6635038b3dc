import ModulePins.Digest
import ModulePins.Emission.Cache
import ModulePins.Emission.Coordinate

/-!
# Emission

Writing a document to its file, unless the cache knows that the file holds it already. The text of
the document is all that decides: if its digest is the one of the last write and the file is still
there, nothing is written.
-/

namespace ModulePins

/-- What an emission did. -/
inductive EmissionStatus where
  | written
  | upToDate
  deriving DecidableEq, Repr

namespace EmissionStatus

def word : EmissionStatus → String
  | written => "written"
  | upToDate => "up-to-date"

end EmissionStatus

/-- A file that is published beside the module. -/
structure PublishedArtifact where
  coordinate : Coordinate
  file : Path
  extension : String := Coordinate.extension
  classifier : Option String := none
  deriving DecidableEq, Repr

/-- The outcome of an emission. -/
structure Emission where
  status : EmissionStatus
  output : Path
  hash : String
  artifact : PublishedArtifact
  deriving DecidableEq, Repr

namespace Emission

def isWritten (e : Emission) : Bool := e.status = .written

/-- A record about a document. -/
def note (message : String) : Record := ⟨.info, .emission, Subsystem.emit.say message⟩

/-- Writes a document to its file, whatever the cache knows, and notes that it did. -/
def write (document : String) (output : Path) (coordinate : Coordinate) : Caching Unit := do
  Task.session (Session.makeDirs output.parent)
  Task.session (Session.change (·.writeBytes output document.toUTF8))
  Cache.record output (Digest.ofText document)
  Task.report [note (coordinate.text ++ ": wrote descriptor " ++ output.toString)]

/-- Emits a document; with `force` it is written in any case. -/
def emit (force : Bool) (document : String) (output : Path) (coordinate : Coordinate) :
    Caching Emission := do
  let hash := Digest.ofText document
  let outcome (status : EmissionStatus) : Emission :=
    ⟨status, output, hash, { coordinate, file := output }⟩
  let known ← if force then pure false else Cache.upToDate output hash
  if known then
    Task.report
      [note (coordinate.text ++ ": descriptor UP-TO-DATE (" ++ output.toString ++ ")")]
    return outcome .upToDate
  else
    write document output coordinate
    return outcome .written

end Emission

end ModulePins
