import Mathlib
import ModulePins.Proofs.MappingFile
import ModulePins.Settings.Layers

/-!
# Settings with overrides

What the settings of a workspace are, by the section of its override file, and how it is refused
when it gives none. The section is the value of one key of the file, or else the whole file, so it
can be any value at all. A mapping is merged into the packaged defaults and then checked. Of the
other values only those that count as blank are let pass, as if there were no file; the rest are
taken for mappings and lack their members.

## Main definitions

* `Settings.ofSection` — the settings that the section of an override file gives
* `Settings.outcome` — the settings that the override file at a path gives

## Main results

* `Settings.check_toMembers` — settings, written as members, pass their own check
* `Settings.exec_loadFrom` — reading the settings, as an equation
* `Settings.loadFrom_of_holds` — what an override file gives whose root is a mapping
-/

namespace ModulePins

open ModulePins.Task

namespace Settings

open ModulePins.MappingFile (members?)

variable {files : FileStore} {path : Path} {S : Session} {v : Value} {es changes : Schema.Members}
  {s : Settings} {f : Fault}

/-! ### Settings as members -/

theorem plainName_str (n : PlainName) : plainName (.str n.val) = .pass n := by
  simp [plainName, Schema.text, Checked.andThen, n.property]

theorem separatorText_str (s : Separator) : separatorText (.str s.val) = .pass s := by
  simp [separatorText, Schema.text, Checked.andThen, s.property]

theorem elements_text (n : ℕ) (ts : List String) :
    Checked.elements Schema.text n (ts.map .str) = .pass ts := by
  induction ts generalizing n with
  | nil => rfl
  | cons t ts ih =>
    rw [List.map_cons, Checked.elements, ih]
    rfl

/-- **Settings pass their own check.** -/
theorem check_toMembers (s : Settings) : check s.toMembers = .pass s := by
  rw [check, toMembers]
  simp only [Schema.field, Schema.member?, List.findSome?_cons, List.find?_cons,
    List.findSome?_nil]
  simp [Schema.noOthers, fieldNames, Schema.member?, plainName_str, separatorText_str,
    Schema.listOf, elements_text, Checked.within, Schema.text]
  rfl

theorem validate_eq (es : Schema.Members) (path : Option String) :
    validate es path = match check es with
      | .pass s => .ok s
      | .fail issues => .error (.reading .validation (Issue.report subject issues) path) :=
  rfl

theorem validate_defaults (path : Option String) : validate defaults path = .ok standard := by
  rw [validate_eq, defaults, check_toMembers]

theorem validate_eq_ok_iff {path : Option String} :
    validate es path = .ok s ↔ check es = .pass s := by
  rw [validate_eq]
  cases check es <;> simp

theorem validate_eq_error_iff {path : Option String} :
    validate es path = .error f ↔ ∃ issues, check es = .fail issues ∧
      f = .reading .validation (Issue.report subject issues) path := by
  rw [validate_eq]
  cases check es <;> simp [eq_comm]

/-! ### Outcomes -/

/-- The settings that the section of an override file gives. -/
def ofSection (path : String) : Value → Except Fault Settings
  | .mapping changes => validate (Value.merge defaults changes) (some path)
  | v => if v.isBlank then .ok standard else .error (.value (.noMember v.kindName "items"))

theorem ofSection_of_ne {path : String} (h : ∀ changes, v ≠ .mapping changes) :
    ofSection path v =
      if v.isBlank then .ok standard else .error (.value (.noMember v.kindName "items")) := by
  cases v with
  | mapping es => exact absurd rfl (h es)
  | _ => rfl

theorem ofSection_of_blank {path : String} (h : v.isBlank = true) :
    ofSection path v = .ok standard := by
  rcases v.eq_mapping_or_ne with ⟨changes, rfl⟩ | hne
  · -- blank, a mapping has no members, and merging none leaves the defaults
    rw [List.isEmpty_iff.mp h, ofSection, Value.merge, validate_defaults]
  · rw [ofSection_of_ne hne, if_pos h]

/-- The settings that the override file at a path gives. -/
def outcome (files : FileStore) (path : Path) : Except Fault Settings :=
  match files.exists? path with
  | .error e => .error (.file e)
  | .ok false => .ok standard
  | .ok true =>
    (MappingFile.contents .parsing files path).bind fun es => ofSection path.toString (section? es)

/-- **Reading the settings** adds to the log, and changes nothing. -/
theorem exec_loadFrom (path : Path) (S : Session) :
    ∃ log, exec (loadFrom path) S = (outcome S.files path, { S with log }) := by
  have hstandard (log : List Record) :
      exec (do Task.ofExcept (validate defaults (some (defaultsPath (← get).home).toString)))
        { S with log } = (.ok standard, { S with log }) := by
    rw [exec_bind, exec_get]
    dsimp only
    rw [exec_ofExcept, validate_defaults]
  rw [loadFrom, loadDefaults, outcome, exec_bind, exec_bind, exec_get]
  dsimp only
  rw [exec_bind, Session.say, Session.exec_report]
  dsimp only
  rw [exec_pure]
  dsimp only
  rw [exec_bind, overrides?, exec_bind, Session.exec_ask]
  cases S.files.exists? path with
  | error e => exact ⟨_, rfl⟩
  | ok there =>
    cases there with
    | false =>
      simp only [Except.mapError_ok, Bool.false_eq_true, if_false]
      rw [exec_bind, Session.say, Session.exec_report]
      dsimp only
      rw [exec_pure]
      exact ⟨_, hstandard _⟩
    | true =>
      simp only [Except.mapError_ok, if_true]
      rw [exec_bind, MappingFile.exec_load]
      cases MappingFile.contents .parsing S.files path with
      | error f => exact ⟨_, rfl⟩
      | ok es =>
        dsimp only [Except.bind]
        rw [exec_pure]
        dsimp only
        split
        · rename_i hblank
          rw [ofSection_of_blank hblank]
          exact ⟨_, hstandard _⟩
        · rename_i hfilled
          rw [exec_bind, exec_ofExcept]
          rcases (section? es).eq_mapping_or_ne with ⟨changes, hchanges⟩ | hne
          · rw [hchanges, override, ofSection]
            dsimp only
            rw [exec_bind, Session.say, Session.exec_report]
            dsimp only
            rw [exec_ofExcept]
            exact ⟨_, rfl⟩
          · rw [ofSection_of_ne hne, if_neg hfilled, override]
            · exact ⟨_, rfl⟩
            · exact hne

theorem outcome_of_holds (h : MappingFile.Holds files path (.mapping es)) :
    outcome files path = ofSection path.toString (section? es) := by
  have hexists : files.exists? path = .ok true := by
    obtain ⟨bytes, hbytes, -⟩ := h
    rw [FileStore.exists?, FileStore.kind?_of_readBytes hbytes]
    rfl
  rw [outcome, hexists]
  dsimp only
  rw [MappingFile.contents_of_holds h rfl]
  rfl

/-! ### Files whose root is a mapping -/

theorem ofSection_eq_ok_iff {path : String} :
    ofSection path v = .ok s ↔
      (∃ changes, v = .mapping changes ∧ check (Value.merge defaults changes) = .pass s) ∨
        v.isBlank = true ∧ s = standard := by
  rcases v.eq_mapping_or_ne with ⟨changes, rfl⟩ | hne
  · rw [ofSection, validate_eq_ok_iff]
    constructor
    · intro hs
      exact .inl ⟨changes, rfl, hs⟩
    · rintro (⟨_, ⟨⟩, hs⟩ | ⟨hblank, rfl⟩)
      · exact hs
      · rw [List.isEmpty_iff.mp hblank, Value.merge]
        exact check_toMembers standard
  · rw [ofSection_of_ne hne]
    split
    · simp [*, eq_comm]
    · simp [*]

theorem ofSection_eq_error_iff {path : String} :
    ofSection path v = .error f ↔
      (∃ changes issues, v = .mapping changes ∧
        check (Value.merge defaults changes) = .fail issues ∧
        f = .reading .validation (Issue.report subject issues) (some path)) ∨
      (∀ changes, v ≠ .mapping changes) ∧ v.isBlank = false ∧
        f = .value (.noMember v.kindName "items") := by
  rcases v.eq_mapping_or_ne with ⟨changes, rfl⟩ | hne
  · rw [ofSection, validate_eq_error_iff]
    constructor
    · rintro ⟨issues, hissues, hf⟩
      exact .inl ⟨changes, issues, rfl, hissues, hf⟩
    · rintro (⟨_, issues, ⟨⟩, hissues, hf⟩ | ⟨hne, -⟩)
      · exact ⟨issues, hissues, hf⟩
      · exact absurd rfl (hne changes)
  · rw [ofSection_of_ne hne]
    split
    · simp [*]
    · simp [*, eq_comm]

/-- **An override file whose root is a mapping.** Its section gives settings, or a failure of
validation that carries the path of the file, exactly if the section is a mapping or counts as
blank. A mapping is merged into the defaults, with which it passes the check or fails it; a blank
section leaves the defaults; and any other section ends the reading, as a value without members. -/
theorem loadFrom_of_holds (h : MappingFile.Holds S.files path (.mapping es)) :
    ∃ r log, exec (loadFrom path) S = (r, { S with log }) ∧
      ((∃ s, r = .ok s) ∨
          (∃ message, r = .error (.reading .validation message (some path.toString))) ↔
        (∃ changes, section? es = .mapping changes) ∨ (section? es).isBlank = true) ∧
      (∀ s, r = .ok s ↔
        (∃ changes, section? es = .mapping changes ∧
          check (Value.merge defaults changes) = .pass s) ∨
        (section? es).isBlank = true ∧ s = standard) ∧
      ∀ f, r = .error f ↔
        (∃ changes issues, section? es = .mapping changes ∧
          check (Value.merge defaults changes) = .fail issues ∧
          f = .reading .validation (Issue.report subject issues) (some path.toString)) ∨
        (∀ changes, section? es ≠ .mapping changes) ∧ (section? es).isBlank = false ∧
          f = .value (.noMember (section? es).kindName "items") := by
  obtain ⟨log, hexec⟩ := exec_loadFrom path S
  rw [outcome_of_holds h] at hexec
  refine ⟨_, log, hexec, ?_, fun s => ofSection_eq_ok_iff, fun f => ofSection_eq_error_iff⟩
  constructor
  · rintro (⟨s, hs⟩ | ⟨message, hm⟩)
    · rcases ofSection_eq_ok_iff.mp hs with ⟨changes, hchanges, -⟩ | ⟨hblank, -⟩
      · exact .inl ⟨changes, hchanges⟩
      · exact .inr hblank
    · rcases ofSection_eq_error_iff.mp hm with ⟨changes, -, hchanges, -⟩ | ⟨-, -, hf⟩
      · exact .inl ⟨changes, hchanges⟩
      · cases hf
  · rintro (⟨changes, hchanges⟩ | hblank)
    · cases hcheck : check (Value.merge defaults changes) with
      | pass s => exact .inl ⟨s, ofSection_eq_ok_iff.mpr (.inl ⟨changes, hchanges, hcheck⟩)⟩
      | fail issues => exact .inr ⟨_, ofSection_eq_error_iff.mpr
          (.inl ⟨changes, issues, hchanges, hcheck, rfl⟩)⟩
    · exact .inl ⟨standard, ofSection_of_blank hblank⟩

/-! Two override files whose section is no mapping. -/

/-- The directory `w` with an override file. -/
def overriding (text : List Char) : FileStore where
  nodes := [(["w"], .directory), (["w", ".water"], .directory),
    (["w", ".water", "config.yaml"], .file (String.ofList text).toUTF8)]
  current := []

def overridingSession (text : List Char) : Session :=
  ⟨overriding text, [], ⟨.root, []⟩, Stamp.epoch⟩

theorem holds_overriding {text : List Char} (hunified : Text.unifyNewlines text = text)
    (hread : Yaml.read text = .ok v) :
    MappingFile.Holds (overriding text) (overridePath ⟨.root, ["w"]⟩) v := by
  have hbytes : (overriding text).readBytes (overridePath ⟨.root, ["w"]⟩) =
      .ok (String.ofList text).toUTF8 := by
    cbv
  exact ⟨_, hbytes, hread ▸ MappingFile.document?_toUTF8 hunified⟩

def namedText : List Char := "workspace: a\n".toList

def namedMembers : Schema.Members := [(.str "workspace", .str "a")]

theorem read_named : Yaml.read namedText = .ok (.mapping namedMembers) := by
  have hreadable : namedText.all Yaml.isReadable = true := by cbv
  have htokens : Yaml.tokens namedText = [.blockMappingStart, .key, .scalar "workspace" true,
    .value, .scalar "a" true, .blockEnd] := by cbv
  rw [Yaml.read, Yaml.node?, hreadable, htokens]
  cbv

def ignoredText : List Char := "workspace: false\n".toList

def ignoredMembers : Schema.Members := [(.str "workspace", .bool false)]

theorem read_ignored : Yaml.read ignoredText = .ok (.mapping ignoredMembers) := by
  have hreadable : ignoredText.all Yaml.isReadable = true := by cbv
  have htokens : Yaml.tokens ignoredText = [.blockMappingStart, .key, .scalar "workspace" true,
    .value, .scalar "false" true, .blockEnd] := by cbv
  rw [Yaml.read, Yaml.node?, hreadable, htokens]
  cbv

/-- A text in place of the section ends the reading, and false is passed over. -/
theorem loadFrom_of_holds_section :
    (∃ log, exec (load ⟨.root, ["w"]⟩) (overridingSession namedText) =
      (.error (.value (.noMember "str" "items")), { overridingSession namedText with log })) ∧
    ∃ log, exec (load ⟨.root, ["w"]⟩) (overridingSession ignoredText) =
      (.ok standard, { overridingSession ignoredText with log }) := by
  have hnamed : section? namedMembers = .str "a" := by cbv
  have hignored : section? ignoredMembers = .bool false := by cbv
  constructor
  · obtain ⟨r, log, hexec, -, -, herror⟩ := loadFrom_of_holds (S := overridingSession namedText)
      (holds_overriding (by cbv) read_named)
    rw [hnamed] at herror
    obtain rfl := (herror _).mpr (.inr ⟨fun _ => by simp, rfl, rfl⟩)
    exact ⟨log, hexec⟩
  · obtain ⟨r, log, hexec, -, hok, -⟩ := loadFrom_of_holds (S := overridingSession ignoredText)
      (holds_overriding (by cbv) read_ignored)
    rw [hignored] at hok
    obtain rfl := (hok _).mpr (.inr ⟨rfl, rfl⟩)
    exact ⟨log, hexec⟩

end Settings

end ModulePins
