import ModulePins.Proofs.Coupling
import ModulePins.Proofs.FileStore.Resolved
import ModulePins.Proofs.FileStore.Shape
import ModulePins.Proofs.MappingFile
import ModulePins.Proofs.Secrets.Masked

/-!
# Files that differ in secrets

Two stores whose files are the same, but for secrets: where the bytes of a file differ, both read as
valid module files, and these declare the same when masked. Reading a module file from the one store
gives what reading it from the other gives, but for secrets, with the same records; where it fails,
it fails in the same way.

What a valid module file says does not depend on its path, so `ModuleFile.ofBytes?` has none. The
path only shows in messages about files that are not valid.

## Main definitions

* `ModuleFile.ofBytes?` — the module file that bytes hold, if it is valid
* `FileStore.Alike` — the same files, but for secrets in valid module files

## Main results

* `FileStore.Alike.sameShape` — stores that are alike have the same shape
* `FileStore.Alike.contents`, `FileStore.Alike.notes` — reading module files
-/

namespace ModulePins

open ModulePins.Task

/-! ### Bytes -/

/-- The module file that bytes hold, if it is valid. -/
def ModuleFile.ofBytes? (bytes : ByteArray) : Option ModuleFile :=
  match String.fromUTF8? bytes with
  | none => none
  | some text =>
    ((MappingFile.parse .moduleFile "" (Text.unifyNewlines text.toList)).bind
      (validate · none)).toOption

namespace MappingFile

variable {stage : ReadingStage} {files files' : FileStore} {p : Path}

theorem parse_toOption (stage stage' : ReadingStage) (path path' : String) (s : List Char) :
    (parse stage path s).toOption = (parse stage' path' s).toOption := by
  rw [parse, parse]
  split
  · rfl
  · rfl
  · split <;> rfl

/-- Reading looks at the files in three ways only. -/
theorem contents_congr (hexists : files'.exists? p = files.exists? p)
    (hdir : files'.isDir? p = files.isDir? p) (hread : files'.readBytes p = files.readBytes p) :
    contents stage files' p = contents stage files p := by
  rw [contents, contents, textOf, textOf, hexists, hdir, hread]

theorem notes_congr (h : contents stage files' p = contents stage files p) :
    notes stage files' p = notes stage files p := by
  rw [notes, notes, h]

end MappingFile

namespace ModuleFile

variable {files : FileStore} {p : Path} {bytes : ByteArray} {m : ModuleFile}

theorem validate_toOption (es : Schema.Members) (path path' : Option String) :
    (validate es path).toOption = (validate es path').toOption := by
  rw [validate, validate]
  split <;> rfl

/-- Wherever they are, valid bytes hold the same module file. -/
theorem validate_of_ofBytes? (h : ofBytes? bytes = some m) :
    ∃ text, String.fromUTF8? bytes = some text ∧ ∀ path,
      (MappingFile.parse .moduleFile path (Text.unifyNewlines text.toList)).bind
        (validate · (some path)) = .ok m := by
  rw [ofBytes?] at h
  split at h
  · cases h
  · rename_i text htext
    obtain ⟨es, hes, hm⟩ := Except.bind_eq_ok_iff.mp (Except.toOption_eq_some_iff.mp h)
    refine ⟨text, htext, fun path => Except.bind_eq_ok_iff.mpr ⟨es, ?_, ?_⟩⟩
    · rw [← Except.toOption_eq_some_iff] at hes ⊢
      rw [← hes, MappingFile.parse_toOption]
    · rw [← Except.toOption_eq_some_iff] at hm ⊢
      rw [← hm, validate_toOption]

/-- The bytes of a text. -/
theorem ofBytes?_toUTF8 {cs : List Char} {v : Value} {es : Schema.Members}
    (hread : Yaml.read (Text.unifyNewlines cs) = .ok v) (hmembers : MappingFile.members? v = some es)
    (hvalidate : validate es none = .ok m) : ofBytes? (String.ofList cs).toUTF8 = some m := by
  rw [ofBytes?, Text.fromUTF8?_toUTF8]
  simp only [String.toList_ofList, MappingFile.parse, hread, hmembers]
  change (validate es none).toOption = some m
  rw [hvalidate]
  rfl

/-- A path to valid bytes reads as the module file that they hold. -/
theorem contents_of_ofBytes? (hread : files.readBytes p = .ok bytes)
    (hbytes : ofBytes? bytes = some m) : contents files p = .ok m := by
  have hfile : files.isFile? p = .ok true := by
    rw [FileStore.isFile?, FileStore.kind?_of_readBytes hread]
    rfl
  obtain ⟨text, htext, hvalid⟩ := validate_of_ofBytes? hbytes
  rw [contents, hfile, MappingFile.contents_of_readBytes hread, MappingFile.ofBytes, htext]
  exact hvalid p.toString

end ModuleFile

/-! ### Stores -/

/-- The same node, or two valid module files that declare the same but for secrets. -/
inductive FileNode.Alike : FileNode → FileNode → Prop
  | same (n : FileNode) : Alike n n
  | secrets {bytes bytes' : ByteArray} {m m' : ModuleFile} (h : ModuleFile.ofBytes? bytes = some m)
      (h' : ModuleFile.ofBytes? bytes' = some m') (hm : m'.masked = m.masked) :
      Alike (.file bytes) (.file bytes')

theorem FileNode.Alike.shape {n n' : FileNode} (h : n.Alike n') : n'.shape = n.shape := by
  cases h <;> rfl

namespace FileStore

variable {s s' : FileStore} {p : Path}

/-- The same files, but for secrets in valid module files. -/
structure Alike (s s' : FileStore) : Prop where
  current : s'.current = s.current
  nodes : ∀ l, Option.Rel FileNode.Alike (s.node? l) (s'.node? l)

namespace Alike

theorem sameShape (h : Alike s s') : SameShape s s' := by
  refine ⟨h.current, fun l => ?_⟩
  have hl := h.nodes l
  generalize s.node? l = n, s'.node? l = n' at hl
  cases hl with
  | none => rfl
  | some hn => rw [Option.map_some, Option.map_some, hn.shape]

/-- Reading a file gives the same, unless it gives two valid module files that declare the same but
for secrets. -/
theorem readBytes (h : Alike s s') (p : Path) : s'.readBytes p = s.readBytes p ∨
    ∃ bytes bytes' m m', s.readBytes p = .ok bytes ∧ s'.readBytes p = .ok bytes' ∧
      ModuleFile.ofBytes? bytes = some m ∧ ModuleFile.ofBytes? bytes' = some m' ∧
      m'.masked = m.masked := by
  rw [FileStore.readBytes, FileStore.readBytes, h.sameShape.locate]
  cases s.locate p true with
  | error e => exact .inl rfl
  | ok l =>
    have hl := h.nodes l
    simp only [bind, Except.bind]
    generalize s.node? l = n, s'.node? l = n' at hl
    cases hl with
    | none => exact .inl rfl
    | some hn =>
      cases hn with
      | same n => exact .inl rfl
      | secrets hm hm' hmasked => exact .inr ⟨_, _, _, _, rfl, rfl, hm, hm', hmasked⟩

/-- **Reading a module file** gives the same but for secrets, or fails in the same way. -/
theorem contents (h : Alike s s') (p : Path) :
    SameEnd (fun m m' => m'.masked = m.masked) (ModuleFile.contents s p)
      (ModuleFile.contents s' p) ∧ ModuleFile.notes s' p = ModuleFile.notes s p := by
  rcases h.readBytes p with hread | ⟨bytes, bytes', m, m', hread, hread', hm, hm', hmasked⟩
  · have hmapping : MappingFile.contents .moduleFile s' p = MappingFile.contents .moduleFile s p :=
      MappingFile.contents_congr (h.sameShape.exists? p) (h.sameShape.isDir? p) hread
    have hcontents : ModuleFile.contents s' p = ModuleFile.contents s p := by
      rw [ModuleFile.contents, ModuleFile.contents, h.sameShape.isFile?, hmapping]
    have hnotes : ModuleFile.notes s' p = ModuleFile.notes s p := by
      rw [ModuleFile.notes, ModuleFile.notes, h.sameShape.isFile?, MappingFile.notes_congr hmapping]
    rw [hcontents]
    exact ⟨(SameEnd.refl _).mono fun m m' hmm => by rw [hmm], hnotes⟩
  · have hcontents := ModuleFile.contents_of_ofBytes? hread hm
    have hcontents' := ModuleFile.contents_of_ofBytes? hread' hm'
    rw [ModuleFile.notes_of_contents hcontents, ModuleFile.notes_of_contents hcontents', hcontents,
      hcontents']
    exact ⟨.ok hmasked, rfl⟩

end Alike

end FileStore

end ModulePins
