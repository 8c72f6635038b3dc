import ModulePins.Schema.Fields

/-!
# Workspace settings

The names that a workspace goes by: of module files, of directories that are not searched, of
output directories and of the cache file; the separator of addresses; and the version that documents
carry. Names of files and directories are plain: not empty, and without slashes of either kind. The
separator is not empty. Both hold of every `Settings`.

* `Settings.standard` — the packaged defaults, as settings;
* `Settings.defaults` — the same, as the members of a mapping that others are merged into;
* `Settings.check` — the settings that a mapping writes, with an issue for each field that is wrong.
-/

namespace ModulePins

/-- Is the text the name of a file or directory, without a path? -/
def isPlainName (s : String) : Bool :=
  s ≠ "" && !s.toList.contains '/' && !s.toList.contains '\\'

/-- The name of a file or directory. -/
abbrev PlainName := { s : String // isPlainName s = true }

/-- A text that is not empty. -/
abbrev Separator := { s : String // s ≠ "" }

/-- The settings of a workspace. -/
structure Settings where
  moduleFile : PlainName
  excludeDirs : List String
  separator : Separator
  buildDir : PlainName
  descriptorDir : PlainName
  schemaVersion : String
  cacheFile : PlainName
  deriving DecidableEq, Repr

namespace Settings

/-- The packaged defaults. -/
def standard : Settings where
  moduleFile := ⟨"water.yaml", by decide⟩
  excludeDirs := ["exam", "build", "target", "bin", "src"]
  separator := ⟨":", by decide⟩
  buildDir := ⟨"build", by decide⟩
  descriptorDir := ⟨"water", by decide⟩
  schemaVersion := "1.0"
  cacheFile := ⟨"descriptor-cache.json", by decide⟩

/-- The settings as the members of a mapping. -/
def toMembers (s : Settings) : List (Value × Value) :=
  [(.str "module_file", .str s.moduleFile.val),
   (.str "exclude_dirs", .list (s.excludeDirs.map .str)),
   (.str "address_separator", .str s.separator.val),
   (.str "build_dir", .str s.buildDir.val),
   (.str "descriptor_dir", .str s.descriptorDir.val),
   (.str "schema_version", .str s.schemaVersion),
   (.str "cache_file", .str s.cacheFile.val)]

/-- The packaged defaults as the members of a mapping. -/
def defaults : List (Value × Value) := standard.toMembers

/-- The name of a file or directory. -/
def plainName (v : Value) : Checked PlainName :=
  (Schema.text v).andThen fun s =>
    if h : isPlainName s = true then .pass ⟨s, h⟩
    else .refuse
      ("Value error, must be a plain file or directory name, got " ++ Text.quoted s)

/-- A text with at least one character. -/
def separatorText (v : Value) : Checked Separator :=
  (Schema.text v).andThen fun s =>
    if h : s ≠ "" then .pass ⟨s, h⟩ else .refuse "String should have at least 1 character"

/-- The names of the fields. -/
def fieldNames : List (List String) :=
  [["module_file"], ["exclude_dirs"], ["address_separator"], ["build_dir"], ["descriptor_dir"],
   ["schema_version"], ["cache_file"]]

/-- What the settings are called in messages. -/
def subject : String := "WorkspaceConfig"

/-- The settings that a mapping writes; what it leaves out is taken from the packaged defaults. -/
def check (es : Schema.Members) : Checked Settings :=
  mk <$> Schema.field ["module_file"] plainName standard.moduleFile es
    <*> Schema.field ["exclude_dirs"] (Schema.listOf Schema.text) standard.excludeDirs es
    <*> Schema.field ["address_separator"] separatorText standard.separator es
    <*> Schema.field ["build_dir"] plainName standard.buildDir es
    <*> Schema.field ["descriptor_dir"] plainName standard.descriptorDir es
    <*> Schema.field ["schema_version"] Schema.text standard.schemaVersion es
    <*> Schema.field ["cache_file"] plainName standard.cacheFile es
    <* Schema.noOthers fieldNames es

end Settings

end ModulePins
