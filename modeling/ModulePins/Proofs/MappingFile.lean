import ModulePins.Proofs.FileStore.Resolved
import ModulePins.Proofs.ModuleFile.Contents
import ModulePins.Proofs.Value.Entries

/-!
# Mapping files by their bytes

What reading a mapping file gives is decided by the bytes that its path leads to: they are a text or
not, the text is a document or not, and the root of the document is a mapping or not.

## Main definitions

* `MappingFile.document?` — the document that bytes write
* `MappingFile.Holds` — a path leads to a file with a document
* `MappingFile.ofBytes` — what bytes hold as a mapping file

## Main results

* `MappingFile.contents_of_readBytes` — reading a file, by its bytes
* `MappingFile.ofBytes_eq_ok_iff` — the bytes that hold members
-/

namespace ModulePins

namespace MappingFile

variable {files : FileStore} {p : Path} {stage : ReadingStage} {path : String} {bytes : ByteArray}
  {es : Schema.Members} {f : Fault} {v : Value}

/-- The document that bytes write, if they are a text. -/
def document? (bytes : ByteArray) : Option (Except Yaml.Fault Value) :=
  (String.fromUTF8? bytes).map fun text => Yaml.read (Text.unifyNewlines text.toList)

/-- The path leads to a file with a document of this value. -/
def Holds (files : FileStore) (p : Path) (v : Value) : Prop :=
  ∃ bytes, files.readBytes p = .ok bytes ∧ document? bytes = some (.ok v)

/-- What bytes hold as a mapping file. -/
def ofBytes (stage : ReadingStage) (path : String) (bytes : ByteArray) :
    Except Fault Schema.Members :=
  match String.fromUTF8? bytes with
  | none => .error (.reading stage ("Invalid UTF-8: " ++ encodingDetail) (some path))
  | some text => parse stage path (Text.unifyNewlines text.toList)

/-- **Reading a file** whose bytes can be read. -/
theorem contents_of_readBytes (h : files.readBytes p = .ok bytes) :
    contents stage files p = ofBytes stage p.toString bytes := by
  have hkind : files.kind? p = .ok (some (.file bytes)) := FileStore.kind?_of_readBytes h
  have hexists : files.exists? p = .ok true := by rw [FileStore.exists?, hkind]; rfl
  have hdir : files.isDir? p = .ok false := by rw [FileStore.isDir?, hkind]; rfl
  have htext : textOf stage files p = match String.fromUTF8? bytes with
      | none => .error (.reading stage ("Invalid UTF-8: " ++ encodingDetail) (some p.toString))
      | some text => .ok (Text.unifyNewlines text.toList) := by
    rewrite [textOf, h]
    rfl
  rw [contents, hexists, hdir, htext, ofBytes]
  dsimp only
  split <;> rfl

/-- The document that the bytes of a text write. -/
theorem document?_toUTF8 {text : List Char} (hunified : Text.unifyNewlines text = text) :
    document? (String.ofList text).toUTF8 = some (Yaml.read text) := by
  rw [document?, Text.fromUTF8?_toUTF8, Option.map_some, String.toList_ofList, hunified]

/-! ### Members -/

theorem members?_of_ne (h : ∀ es, v ≠ .mapping es) :
    members? v = if v.isBlank then some [] else none := by
  cases v with
  | mapping es => exact absurd rfl (h es)
  | _ => rfl

theorem members?_eq_some_iff :
    members? v = some es ↔ v = .mapping es ∨ (∀ es', v ≠ .mapping es') ∧ v.isBlank ∧ es = [] := by
  rcases v.eq_mapping_or_ne with ⟨es', rfl⟩ | hne
  · simp [members?]
  · rw [members?_of_ne hne]
    by_cases hblank : v.isBlank = true
    · simp [hblank, hne, @eq_comm _ [] es]
    · simp [hblank, hne]

theorem parse_eq_ok_iff {s : List Char} :
    parse stage path s = .ok es ↔ ∃ v, Yaml.read s = .ok v ∧ members? v = some es := by
  rw [parse]
  cases hread : Yaml.read s with
  | error f => cases f <;> simp
  | ok v => cases hmembers : members? v <;> simp [hmembers]

/-- **The bytes that hold members**: a document whose root is a mapping, or counts as no content. -/
theorem ofBytes_eq_ok_iff :
    ofBytes stage path bytes = .ok es ↔
      ∃ v, document? bytes = some (.ok v) ∧ members? v = some es := by
  rw [ofBytes, document?]
  cases String.fromUTF8? bytes with
  | none => simp
  | some text => simp [parse_eq_ok_iff]

theorem contents_of_holds (h : Holds files p v) (hv : members? v = some es) :
    contents stage files p = .ok es := by
  obtain ⟨bytes, hbytes, hdocument⟩ := h
  rw [contents_of_readBytes hbytes]
  exact ofBytes_eq_ok_iff.mpr ⟨v, hdocument, hv⟩

/-- What bytes that hold no members are refused for. A value that cannot be made is not reported as
a failure of reading. -/
theorem ofBytes_eq_error (h : ofBytes stage path bytes = .error f) :
    (∃ message, f = .reading stage message (some path)) ∨
      ∃ b, document? bytes = some (.error (.value b)) ∧ f = .value b := by
  rw [ofBytes] at h
  rw [document?]
  cases htext : String.fromUTF8? bytes with
  | none =>
    rw [htext] at h
    cases h
    exact .inl ⟨_, rfl⟩
  | some text =>
    rw [htext] at h
    dsimp only at h
    rw [parse] at h
    cases hread : Yaml.read (Text.unifyNewlines text.toList) with
    | error fault =>
      rw [hread] at h
      cases fault with
      | malformed => cases h; exact .inl ⟨_, rfl⟩
      | value b => cases h; exact .inr ⟨b, by simp [hread], rfl⟩
    | ok v =>
      rw [hread] at h
      dsimp only at h
      cases hmembers : members? v with
      | none =>
        rw [hmembers] at h
        cases h
        exact .inl ⟨_, rfl⟩
      | some es =>
        rw [hmembers] at h
        cases h

end MappingFile

end ModulePins
