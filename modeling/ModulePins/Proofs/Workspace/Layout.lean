import ModulePins.CommandLine.Run
import ModulePins.Proofs.Workspace.Twice

/-!
# Where documents are written

The document of a module belongs into `build/water` below the directory of the module. Its name is
made of the artifact id and the version, and these may be any texts: a module file can say them. So the
name is read as a path of its own, and where it leads is decided by the directories in it. When they
lead back to where they start from, or there are none, the document is where it belongs; otherwise it
is not, and it may be anywhere.

Without a slash in artifact id and version there are no directories in the name. Then the documents
stay below the workspace directory, so that they can be reported relative to it, and no two modules in
different directories have the same one.

## Main definitions

* `Path.normalized` — a path without `..`
* `Coordinate.folder`, `Coordinate.lastName` — the name of a document file as a path

## Main results

* `Coordinate.isName_lastName` — what the name ends with is the name of a file
* `Workspace.normalized_outputOf` — where a document is
* `Workspace.below_of_configure` — where the modules are
* `Workspace.finalize_layout` — the emissions of a workspace
-/

namespace ModulePins

open ModulePins.Task FileStore Emission

/-! ### Paths as they read -/

namespace FileStore

variable {l : List String} {name : String}

theorem collapseDots_concat (l : List String) (h : name ≠ "..") :
    collapseDots (l ++ [name]) = collapseDots l ++ [name] := by
  rw [collapseDots, List.foldl_append, List.foldl_cons, List.foldl_nil, if_neg h, List.reverse_cons,
    ← collapseDots]

theorem not_mem_collapseDots (l : List String) : ".." ∉ collapseDots l := by
  have hfold (back : List String) (hback : ".." ∉ back) :
      ".." ∉ l.foldl (fun (back : List String) p => if p = ".." then back.drop 1 else p :: back)
        back := by
    induction l generalizing back with
    | nil => exact hback
    | cons name l ih =>
      rw [List.foldl_cons]
      refine ih _ ?_
      split
      · exact fun hmem => hback (List.mem_of_mem_drop hmem)
      · rename_i hname
        rw [List.mem_cons, not_or]
        exact ⟨Ne.symm hname, hback⟩
  rw [collapseDots, List.mem_reverse]
  exact hfold [] List.not_mem_nil

end FileStore

namespace Path

variable {p : Path} {name : String}

/-- The path without `..`, each dropped with the component before it. -/
def normalized (p : Path) : Path := ⟨p.anchor, collapseDots p.parts⟩

theorem normalized_of_proper (h : ".." ∉ p.parts) : p.normalized = p := by
  rw [normalized, collapseDots_of_proper h]

theorem normalized_div (p : Path) (h : IsName name) : (p / name).normalized = p.normalized / name := by
  rw [div_name p h, div_name _ h, normalized, collapseDots_concat _ h.ne_up, normalized]

end Path

/-! ### The name of a document -/

namespace Coordinate

variable {c : Coordinate}

/-- The directories in the name of the document file. -/
def folder (c : Coordinate) : Path := (Path.ofString c.fileName).parent

/-- The last component in the name of the document file. -/
def lastName (c : Coordinate) : String := (Path.ofString c.fileName).name

/-- The last component holds at least the extension. -/
theorem exists_ofString_fileName (c : Coordinate) : ∃ above last, Path.IsName last ∧
    Path.ofString c.fileName = ⟨Path.anchorOf c.fileName, above ++ [last]⟩ := by
  have htext : c.fileName.toList =
      (c.artifactId.toList ++ ['-'] ++ c.version.toList) ++ ".water.json".toList := by
    simp [fileName, extension]
  have hplain : '/' ∉ ".water.json".toList := by decide
  obtain ⟨pieces, last, hpieces, hsuffix⟩ :=
    Text.exists_splitChars_append hplain [] (c.artifactId.toList ++ ['-'] ++ c.version.toList)
  rw [← htext] at hpieces
  have hslash : '/' ∉ last :=
    Text.not_mem_splitChars List.not_mem_nil last (hpieces ▸ List.mem_append_right _ (by simp))
  have hne {name : String} (hshort : name.toList.length < 11) : String.ofList last ≠ name := fun heq => by
    have hlength := hsuffix.length_le
    rw [← heq, String.toList_ofList] at hshort
    exact absurd hlength (by simpa using hshort)
  have hname : Path.IsName (String.ofList last) :=
    ⟨hne (by decide), by rwa [String.toList_ofList], hne (by decide), hne (by decide)⟩
  have hsplit : Text.splitOn "/" c.fileName = (pieces ++ [last]).map String.ofList :=
    congrArg (List.map String.ofList) hpieces
  refine ⟨(pieces.map String.ofList).filter fun p => p ≠ "" && p ≠ ".", _, hname, ?_⟩
  rw [Path.ofString, Path.components, hsplit, List.map_append, List.filter_append]
  simp [hname.ne_empty, hname.ne_here]

theorem isName_lastName (c : Coordinate) : Path.IsName c.lastName := by
  obtain ⟨above, last, hname, heq⟩ := c.exists_ofString_fileName
  rw [lastName, heq, Path.name, List.getLast?_concat]
  exact hname

/-- **Where the name leads**: to its last component in its directories. -/
theorem div_fileName (d : Path) (c : Coordinate) :
    d / c.fileName = d.append c.folder / c.lastName := by
  obtain ⟨above, last, hname, heq⟩ := c.exists_ofString_fileName
  have hfolder : c.folder = ⟨Path.anchorOf c.fileName, above⟩ := by
    rw [folder, heq, Path.parent, List.dropLast_concat]
  have hlast : c.lastName = last := by
    rw [lastName, heq, Path.name, List.getLast?_concat]
    rfl
  rw [Path.div_name _ c.isName_lastName, hfolder, hlast]
  change d.append (Path.ofString c.fileName) = _
  rw [heq, Path.append, Path.append]
  split
  · rename_i habsolute
    rw [if_pos (by exact habsolute)]
  · rename_i hrelative
    rw [if_neg (by exact hrelative), List.append_assoc]

/-- Without a slash there are no directories in the name. -/
theorem folder_of_plain (hartifact : '/' ∉ c.artifactId.toList) (hversion : '/' ∉ c.version.toList) :
    c.folder = ⟨.relative, []⟩ := by
  rw [folder, Path.ofString_name (c.isName_fileName hartifact hversion)]
  rfl

end Coordinate

namespace Project

/-- Artifact id and version hold no slash. -/
structure Plain (p : Project) : Prop where
  artifactId : '/' ∉ p.artifactId.toList
  version : '/' ∉ p.version.toList

end Project

namespace Workspace

variable {w w₀ w' : Workspace} {S S' S₀ S₁ T T' : Session} {p q : Project} {force inMemory : Bool}
  {directory : Path} {settings? : Option Settings} {es : List Emission}

/-! ### Directories of modules -/

/-- The root of a workspace is an absolute path without `..`. -/
theorem root_of_create (h : exec (create directory settings? inMemory) S = (.ok w, S')) :
    w.root.anchor = .root ∧ ".." ∉ w.root.parts := by
  obtain ⟨r, log, hexec, hmade⟩ := exec_create directory settings? inMemory S
  rw [hexec] at h
  obtain rfl : r = .ok w := congrArg Prod.fst h
  obtain ⟨root, settings, hreal, -, rfl⟩ := created_eq_some_iff.mp hmade.symm
  rw [(realPath_eq_ok_iff.mp hreal).1]
  exact ⟨rfl, not_mem_collapseDots _⟩

/-- The modules lie below the workspace directory. -/
theorem below_of_configure {r : Except Fault Unit}
    (hcreated : exec (create directory settings? inMemory) S₀ = (.ok w₀, S₁))
    (hwell : S.files.WellFormed) (hdone : exec configure (w₀, S) = (r, (w, S'))) (hp : p ∈ w.projects) :
    ∃ names, ".." ∉ w.root.parts ++ names ∧ p.directory = ⟨.root, w.root.parts ++ names⟩ := by
  have hfresh := (Prepared.created hcreated).fresh
  obtain ⟨hanchor, hproper⟩ := root_of_create hcreated
  have hsame : w.root = w₀.root := (configure_keeps hfresh.unconfigured hdone).1
  rw [hsame]
  rcases directory_of_configure hwell hfresh.unconfigured (eq_nil_of_create hcreated) hdone hp with
    hdirectory | ⟨segments, hmodule, hdirectory⟩
  · exact ⟨[], by simpa using hproper, by rw [hdirectory, List.append_nil, ← hanchor]⟩
  · obtain ⟨hnames, hjoin⟩ := names_of_holdsModule hwell hmodule
    refine ⟨segments, ?_, by rw [hdirectory, hjoin, hanchor]⟩
    rw [List.mem_append, not_or]
    exact ⟨hproper, fun hup => (hnames _ hup).ne_up rfl⟩

/-! ### Documents -/

/-- **Where a document is**: in the directory that its name leads to from where it belongs. -/
theorem normalized_outputOf (hstandard : w.settings = .standard) (p : Project) :
    (w.outputOf p).normalized =
      ((p.directory / "build" / "water").append p.coordinate.folder).normalized /
        p.coordinate.lastName := by
  rw [outputOf_eq hstandard, Coordinate.div_fileName,
    Path.normalized_div _ p.coordinate.isName_lastName]

/-- A name that leads into the directory of another module. -/
example : ((⟨.root, ["w", "b", "build", "water"]⟩ : Path) /
    (⟨"", "../../../a/build/water/a", "1"⟩ : Coordinate).fileName).normalized =
      ⟨.root, ["w", "a", "build", "water", "a-1.water.json"]⟩ := by
  cbv

/-- It is where it belongs exactly if its name leads back there. -/
theorem outputOf_belongs_iff (hstandard : w.settings = .standard) (p : Project) :
    (∃ name, Path.IsName name ∧ (w.outputOf p).normalized = p.directory / "build" / "water" / name) ↔
      ((p.directory / "build" / "water").append p.coordinate.folder).normalized =
        p.directory / "build" / "water" := by
  rw [normalized_outputOf hstandard]
  constructor
  · rintro ⟨name, hname, heq⟩
    have hparent := congrArg Path.parent heq
    rwa [Path.parent_div _ p.coordinate.isName_lastName, Path.parent_div _ hname] at hparent
  · intro heq
    exact ⟨_, p.coordinate.isName_lastName, by rw [heq]⟩

/-- Without a slash, its name is the name of a file there. -/
theorem outputOf_plain (hstandard : w.settings = .standard) (hp : p.Plain) :
    Path.IsName p.coordinate.fileName ∧ w.outputOf p =
      ⟨p.directory.anchor, p.directory.parts ++ ["build", "water", p.coordinate.fileName]⟩ := by
  have hname := p.coordinate.isName_fileName hp.artifactId hp.version
  refine ⟨hname, ?_⟩
  rw [outputOf_eq hstandard, Path.div_name _ hname, Path.div_name _ (by decide),
    Path.div_name _ (by decide), List.append_assoc, List.append_assoc]
  rfl

theorem outputOf_proper (hstandard : w.settings = .standard) (hp : p.Plain)
    (hproper : ".." ∉ p.directory.parts) : ".." ∉ (w.outputOf p).parts := by
  obtain ⟨hname, houtput⟩ := outputOf_plain hstandard hp
  rw [houtput, List.mem_append, not_or]
  refine ⟨hproper, ?_⟩
  simp [Ne.symm hname.ne_up]

/-- Modules in different directories have different documents. -/
theorem outputOf_ne (hstandard : w.settings = .standard) (hp : p.Plain) (hq : q.Plain)
    (hne : p.directory ≠ q.directory) : w.outputOf p ≠ w.outputOf q := by
  rw [(outputOf_plain hstandard hp).2, (outputOf_plain hstandard hq).2]
  intro heq
  obtain ⟨hanchor, hparts⟩ := Path.mk.inj heq
  exact hne (congrArg₂ Path.mk hanchor (List.append_inj_left' hparts rfl))

/-- What is relative to the directory where it belongs is below the workspace directory. -/
theorem under?_outputOf {names : Segments} (hstandard : w.settings = .standard)
    (hanchor : w.root.anchor = .root) (hdirectory : p.directory = ⟨.root, w.root.parts ++ names⟩)
    (hrelative : p.coordinate.folder.isAbsolute = false) :
    ∃ below, (w.outputOf p).under? w.root = some below := by
  have houtput : w.outputOf p = ⟨.root, w.root.parts ++ (names ++ ["build", "water"] ++
      p.coordinate.folder.parts ++ [p.coordinate.lastName])⟩ := by
    rw [outputOf_eq hstandard, Coordinate.div_fileName, Path.append, if_neg (by simp [hrelative]),
      Path.div_name _ p.coordinate.isName_lastName, Path.div_name _ (by decide),
      Path.div_name _ (by decide), hdirectory]
    simp
  rw [houtput, Path.under?, if_pos ⟨hanchor.symm, by simp⟩]
  exact ⟨_, rfl⟩

/-- **Where the documents of a workspace are.** The workspace has the packaged settings, its modules
are those that a walk has found, and it has been configured. Then publishing emits one document for
each module with a module id. It lies, after normalising, directly in `build/water` below the
directory of its module exactly if its name leads back there. If no name is an absolute path, all
documents can be reported relative to the workspace directory.

Without a slash in artifact id and version this is so: the document lies in `build/water` under its
name, without any `..` to normalise, two such modules in different directories have different
documents, and where there are no links these are different files. -/
theorem finalize_layout
    (hcreated : exec (create directory settings? inMemory) S₀ = (.ok w₀, S₁))
    (hstandard : w₀.settings = .standard) (hwell : S.files.WellFormed)
    (hconfigured : exec configure (w₀, S) = (.ok (), (w, T)))
    (hdone : exec (finalize force) (w, T) = (.ok es, (w', T'))) :
    es.map Emission.output = w.published.map w.outputOf ∧
    (∀ p ∈ w.published, (∃ name, Path.IsName name ∧
        (w.outputOf p).normalized = p.directory / "build" / "water" / name) ↔
      ((p.directory / "build" / "water").append p.coordinate.folder).normalized =
        p.directory / "build" / "water") ∧
    ((∀ p ∈ w.published, p.coordinate.folder.isAbsolute = false) →
      ∀ e ∈ es, ∃ row, Command.emissionRow w.root e = .ok row) ∧
    (∀ p ∈ w.published, p.Plain → Path.IsName p.coordinate.fileName ∧
      w.outputOf p = p.directory / "build" / "water" / p.coordinate.fileName ∧
      (w.outputOf p).normalized = w.outputOf p ∧
      (∃ below, (w.outputOf p).under? w.root = some below) ∧
      ((∀ l t, T.files.node? l ≠ some (.link t)) →
        T.files.realPath (w.outputOf p) = .ok (w.outputOf p))) ∧
    ∀ p ∈ w.published, ∀ q ∈ w.published, p.Plain → q.Plain → p.directory ≠ q.directory →
      w.outputOf p ≠ w.outputOf q := by
  have hfresh := (Prepared.created hcreated).fresh
  obtain ⟨hroot, hsettings, -, hfiles⟩ := configure_keeps hfresh.unconfigured hconfigured
  have hstandard : w.settings = .standard := hsettings.trans hstandard
  have hsetUp := hfresh.setUp hconfigured
  have hanchor : w.root.anchor = .root := hroot ▸ (root_of_create hcreated).1
  have hbelow {p : Project} (hp : p ∈ w.published) :=
    below_of_configure hcreated hwell hconfigured (List.mem_filter.mp hp).1
  have hrelative {p : Project} (hp : p ∈ w.published)
      (hfolder : p.coordinate.folder.isAbsolute = false) :
      ∃ below, (w.outputOf p).under? w.root = some below := by
    obtain ⟨names, -, hdirectory⟩ := hbelow hp
    exact under?_outputOf hstandard hanchor hdirectory hfolder
  have houtputs : es.map Emission.output = w.published.map w.outputOf := by
    obtain ⟨c, c', S₂, hchain, -⟩ := hsetUp.consistent.chain_of_finalize hsetUp.configured hdone
    have hreports := (hchain.series (hfiles ▸ hwell.homed)).reports es rfl
    refine List.forall₂_eq_eq_eq ▸ List.forall₂_map_left_iff.mpr (List.forall₂_map_right_iff.mpr ?_)
    refine ((List.forall₂_map_left_iff.mp hreports).imp fun p e he => ?_).flip
    obtain ⟨d, status, -, rfl⟩ := he
    rfl
  refine ⟨houtputs, fun p _ => outputOf_belongs_iff hstandard p, fun hfolders e he => ?_,
    fun p hp hplain => ?_, fun _ _ _ _ => outputOf_ne hstandard⟩
  · obtain ⟨p, hp, houtput⟩ := List.mem_map.mp (houtputs ▸ List.mem_map_of_mem he)
    obtain ⟨below, hunder⟩ := hrelative hp (hfolders p hp)
    rw [Command.emissionRow, ← houtput, hunder]
    exact ⟨_, rfl⟩
  · obtain ⟨names, hproper, hdirectory⟩ := hbelow hp
    obtain ⟨hname, houtput⟩ := outputOf_plain hstandard hplain
    have hreal := outputOf_proper hstandard hplain (by rwa [hdirectory])
    refine ⟨hname, outputOf_eq hstandard p, Path.normalized_of_proper hreal, hrelative hp ?_,
      fun hfree => ?_⟩
    · rw [Coordinate.folder_of_plain hplain.artifactId hplain.version]
      rfl
    · have hlocation : w.outputOf p = ⟨.root, (w.outputOf p).parts⟩ := by rw [houtput, hdirectory]
      rw [hlocation]
      exact (isReal_of_links hreal fun above t ht => absurd ht (hfree above t)).realPath

/-- The document of a single module. -/
theorem finalize_layout_alone : ∃ d es S₁ T w' T',
    exec (create ⟨.root, ["w"]⟩ none false) (knotSession alone []) = (.ok aloneCreated, S₁) ∧
    exec configure (aloneCreated, S₁) = (.ok (), (aloneConfigured d, T)) ∧
    exec (finalize false) (aloneConfigured d, T) = (.ok es, (w', T')) ∧
    es.map Emission.output = [aloneOutput] ∧
    (∀ e ∈ es, ∃ row, Command.emissionRow ⟨.root, ["w"]⟩ e = .ok row) ∧
    aloneOutput.normalized = (⟨.root, ["w"]⟩ : Path) / "build" / "water" / "w-unspecified.water.json" := by
  obtain ⟨log, hcreated⟩ := exec_create_alone (realPath_aloneWith []) exists?_override.1 []
  have hcontents : ModuleFile.contents alone ⟨.root, ["w", "water.yaml"]⟩ = .ok aloneFile :=
    contents_aloneWith (by cbv)
  obtain ⟨d, log', hconfigured⟩ := configured_alone (Prepared.created hcreated).fresh log
    (modules_alone log).1 hcontents
  obtain ⟨es, b, t, w', log₂, hdone⟩ := aloneCourse.exec_finalize_alone d log'
  have hpublished : (aloneConfigured d).published = [aloneRead] := rfl
  have hplain : aloneRead.Plain := ⟨by decide, by decide⟩
  have hread : aloneRead ∈ (aloneConfigured d).published := by
    rw [hpublished]
    exact List.mem_singleton_self _
  obtain ⟨houtputs, -, hrows, hall, -⟩ :=
    finalize_layout hcreated rfl wellFormed_alone hconfigured hdone
  obtain ⟨-, houtput, hnormal, -⟩ := hall aloneRead hread hplain
  rw [outputOf_alone] at houtput hnormal
  refine ⟨d, es, _, _, w', _, hcreated, hconfigured, hdone, ?_, hrows ?_, ?_⟩
  · rw [houtputs, hpublished, List.map_singleton, outputOf_alone]
  · rw [hpublished]
    refine List.forall_mem_singleton.mpr ?_
    rw [Coordinate.folder_of_plain hplain.artifactId hplain.version]
    rfl
  · rw [hnormal, houtput]
    rfl

end Workspace

end ModulePins
