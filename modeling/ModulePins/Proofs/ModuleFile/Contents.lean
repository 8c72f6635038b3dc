import ModulePins.ModuleFile.Load
import ModulePins.Proofs.Task

/-!
# What reading a module file gives

Reading a module file asks the files and adds to the log, and changes nothing. So what it gives is a
function of the files, `ModuleFile.contents`, and so is what it adds to the log, `ModuleFile.notes`;
the rest of the session has no part in it.

## Main definitions

* `MappingFile.contents`, `ModuleFile.contents` — what reading gives, by the files alone
* `ModuleFile.at?` — the module file at a path, if there is a valid one

## Main results

* `MappingFile.exec_load`, `ModuleFile.exec_load` — reading, as an equation
-/

namespace ModulePins

open ModulePins.Task

namespace MappingFile

/-- The text of a file, or what is said if there is none. -/
def textOf (stage : ReadingStage) (files : FileStore) (p : Path) : Except Fault (List Char) :=
  match files.readBytes p with
  | .error e =>
    .error (.reading stage ("Failed to read config: " ++ (Fault.file e).message) (some p.toString))
  | .ok bytes =>
    match String.fromUTF8? bytes with
    | none => .error (.reading stage ("Invalid UTF-8: " ++ encodingDetail) (some p.toString))
    | some text => .ok (Text.unifyNewlines text.toList)

/-- The members of the document in a file. -/
def contents (stage : ReadingStage) (files : FileStore) (p : Path) :
    Except Fault (List (Value × Value)) :=
  match files.exists? p with
  | .error e => .error (.file e)
  | .ok false => .error (.reading .missing "Config file not found" (some p.toString))
  | .ok true =>
    match files.isDir? p with
    | .error e => .error (.file e)
    | .ok true =>
      .error (.reading .general "Config path is a directory, not a file" (some p.toString))
    | .ok false => (textOf stage files p).bind (parse stage p.toString)

/-- The record of a file that has been read. -/
def loaded (p : Path) : Record := ⟨.debug, .reading, "Loaded YAML from " ++ p.toString⟩

/-- What reading a file adds to the log. -/
def notes (stage : ReadingStage) (files : FileStore) (p : Path) : List Record :=
  match contents stage files p with
  | .ok _ => [loaded p]
  | .error _ => []

/-- Reading a text, where a failure is reworded to say which file it is about. -/
theorem exec_textOf {stage : ReadingStage} {p : Path} {handle : Fault → Task Session (List Char)}
    (hcoded : handle .notText =
      throw (.reading stage ("Invalid UTF-8: " ++ encodingDetail) (some p.toString)))
    (hfile : ∀ e, handle (.file e) = throw (.reading stage
      ("Failed to read config: " ++ (Fault.file e).message) (some p.toString))) (S : Session) :
    exec (tryCatch (Session.readText p) handle) S = (textOf stage S.files p, S) := by
  rw [exec_tryCatch, Session.exec_readText, textOf]
  cases S.files.readBytes p with
  | error e =>
    dsimp only
    rw [hfile, exec_throw]
  | ok bytes =>
    dsimp only
    cases String.fromUTF8? bytes with
    | none =>
      dsimp only
      rw [hcoded, exec_throw]
    | some text => rfl

/-- **Reading a mapping file.** -/
theorem exec_load (stage : ReadingStage) (p : Path) (S : Session) :
    exec (load stage p) S =
      (contents stage S.files p, { S with log := S.log ++ notes stage S.files p }) := by
  rw [load, exec_bind, Session.exec_ask, notes, contents]
  cases S.files.exists? p with
  | error e => simp
  | ok there =>
    cases there with
    | false => simp
    | true =>
      simp only [Except.mapError_ok, Bool.not_true, Bool.false_eq_true, if_false]
      rw [exec_bind, Session.exec_ask]
      cases S.files.isDir? p with
      | error e => simp
      | ok isDir =>
        cases isDir with
        | true => simp
        | false =>
          simp only [Except.mapError_ok, Bool.false_eq_true, if_false]
          rw [exec_bind, exec_textOf rfl fun _ => rfl]
          cases textOf stage S.files p with
          | error f => simp [Except.bind]
          | ok text =>
            dsimp only
            rw [exec_bind, exec_ofExcept]
            cases hparse : parse stage p.toString text with
            | error f => simp [Except.bind, hparse]
            | ok es => simp [Except.bind, Except.map, hparse, exec_map, Session.say, loaded]

end MappingFile

namespace ModuleFile

/-- What reading the module file at a path gives. -/
def contents (files : FileStore) (p : Path) : Except Fault ModuleFile :=
  match files.isFile? p with
  | .error e => .error (.file e)
  | .ok false => .error (.reading .moduleFile "Module file not found" (some p.toString))
  | .ok true => (MappingFile.contents .moduleFile files p).bind (validate · (some p.toString))

/-- What reading the module file at a path adds to the log. -/
def notes (files : FileStore) (p : Path) : List Record :=
  match files.isFile? p with
  | .ok true => MappingFile.notes .moduleFile files p
  | _ => []

/-- The valid module file at a path, if there is one. -/
def at? (files : FileStore) (p : Path) : Option ModuleFile := (contents files p).toOption

/-- **Reading a module file.** -/
theorem exec_load (p : Path) (S : Session) :
    exec (load p) S = (contents S.files p, { S with log := S.log ++ notes S.files p }) := by
  rw [load, exec_bind, Session.exec_ask, contents, notes]
  cases S.files.isFile? p with
  | error e => simp
  | ok isFile =>
    cases isFile with
    | false => simp
    | true =>
      simp only [Except.mapError_ok, Bool.not_true, Bool.false_eq_true, if_false]
      rw [exec_bind, MappingFile.exec_load]
      cases MappingFile.contents .moduleFile S.files p with
      | error f => rfl
      | ok es =>
        dsimp only
        rw [exec_ofExcept]
        rfl

/-- A module file that has been read leaves one record. -/
theorem notes_of_contents {files : FileStore} {p : Path} {m : ModuleFile}
    (h : contents files p = .ok m) : notes files p = [MappingFile.loaded p] := by
  rw [contents] at h
  rw [notes]
  split at h
  · cases h
  · cases h
  · rename_i hfile
    rw [hfile]
    dsimp only
    rw [MappingFile.notes]
    cases hmembers : MappingFile.contents .moduleFile files p with
    | error f =>
      rw [hmembers] at h
      cases h
    | ok es => rfl

theorem exec_load_of_contents {p : Path} {S : Session} {m : ModuleFile}
    (h : contents S.files p = .ok m) :
    exec (load p) S = (.ok m, { S with log := S.log ++ [MappingFile.loaded p] }) := by
  rw [exec_load, notes_of_contents h, h]

end ModuleFile

end ModulePins
