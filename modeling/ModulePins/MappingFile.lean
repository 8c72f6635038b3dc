import ModulePins.Task
import ModulePins.Value
import ModulePins.Yaml.Document

/-!
# Mapping files

Settings and module files are documents whose root is a mapping; a document without content counts
as the empty mapping. `MappingFile.load` reads one. What is wrong with the text or its root is
reported as a failure of the given stage, under the path of the file; a value that does not exist is
reported as such.
-/

namespace ModulePins

namespace MappingFile

/-- The members of a document's root. -/
def members? : Value → Option (List (Value × Value))
  | .mapping es => some es
  | v => if v.isBlank then some [] else none

/-- What is said about a text that is no well-formed document. -/
def malformedDetail : String := "not a well-formed \"YAML\" document"

/-- What is said about bytes that are no text. -/
def encodingDetail : String := "not encoded as 'utf-8'"

/-- The members that the text of a file holds. -/
def parse (stage : ReadingStage) (path : String) (s : List Char) :
    Except Fault (List (Value × Value)) :=
  match Yaml.read s with
  | .error .malformed =>
    .error (.reading stage ("Invalid YAML syntax: " ++ malformedDetail) (some path))
  | .error (.value b) => .error (.value b)
  | .ok v =>
    match members? v with
    | some es => .ok es
    | none => .error (.reading stage "Config root must be a mapping (dict)" (some path))

/-- The members of the document in a file. -/
def load (stage : ReadingStage) (p : Path) : Task Session (List (Value × Value)) := do
  let path := p.toString
  if !(← Session.ask (·.exists? p)) then
    throw (.reading .missing "Config file not found" (some path))
  if ← Session.ask (·.isDir? p) then
    throw (.reading .general "Config path is a directory, not a file" (some path))
  let text ← tryCatch (Session.readText p) fun
    | .notText => throw (.reading stage ("Invalid UTF-8: " ++ encodingDetail) (some path))
    | .file e =>
      throw (.reading stage ("Failed to read config: " ++ (Fault.file e).message) (some path))
    | f => throw f
  let es ← Task.ofExcept (parse stage path text)
  Session.say .debug .reading ("Loaded YAML from " ++ path)
  return es

end MappingFile

end ModulePins
