import ModulePins.Proofs.Address
import ModulePins.Proofs.Workspace.Modules

/-!
# Modules under the addresses of their directories

A module may be registered by its address alone, and then it lies where the address says. This has to
be where a walk finds it, and it is, for directories whose names keep clear of the separator: the
address of such a directory is its own, it stands for no other one, and it leads back to the directory
from wherever it is read.

Other names go by other rules. An address with a name that holds the separator is cut at another
place when it is read, and stands for a directory that need not exist.

## Main results

* `WalkRules.eq_moduleAt_of_mem` — where a walk finds a module
* `Workspace.register_format` — where a module lies that is registered by its address
* `Address.plain_one_to_one` — addresses and directories
-/

namespace ModulePins

/-- The address and the directory of a module that was found are those of its names. -/
theorem WalkRules.eq_moduleAt_of_mem {r : WalkRules} {t : DirectoryTree} {seen : List String}
    {vs : List Visit} {m : FoundModule} (hm : m ∈ r.modulesOf t seen vs) :
    m = r.moduleAt t m.segments := by
  induction vs generalizing seen with
  | nil => cases hm
  | cons v vs ih =>
    rw [modulesOf] at hm
    split at hm
    · rcases List.mem_cons.mp hm with rfl | hm
      · rfl
      · exact ih hm
    · exact ih hm

namespace Workspace

variable {w : Workspace} {names : Segments}

/-- **A module that is registered by its address** lies in the directory of its names, unless there
is a module at the address already. -/
theorem register_format (hnames : ∀ name ∈ names, Address.Plain w.settings.separator.val name) :
    (w.register (Address.format w.settings.separator.val names) none).1.sites =
      if Address.format w.settings.separator.val names ∈ w.addresses then w.sites
      else w.sites ++ [(Address.format w.settings.separator.val names, w.root.join names)] := by
  have hnormal : w.normalize (Address.format w.settings.separator.val names) =
      Address.format w.settings.separator.val names := Address.normalize_format _ _
  rw [sites_register, siteOf, hnormal, Option.getD_none, directoryOf,
    Address.segments_format hnames]

theorem site_of_mem_found {S : Session} {m : FoundModule} (hm : m ∈ (found w S).modules) :
    (m.address, m.directory) =
      (Address.format w.settings.separator.val m.segments, w.root.join m.segments) := by
  rw [found, WalkRules.modules_walk] at hm
  rw [WalkRules.eq_moduleAt_of_mem hm]
  rfl

end Workspace

namespace Address

/-- **Addresses and directories correspond one to one** where the names keep clear of the separator,
whatever text that is. Two directories with such names have different addresses; the address before
the last separator is that of the directory above; an address is in normal form, and stays the same
with any number of separators put in front and stripped again. A module that is registered by such
an address, without a directory, lies in the directory of the names (if the address is free), and
this is where a walk finds it. -/
theorem plain_one_to_one (separator : Separator) :
    (∀ names names' : Segments, (∀ name ∈ names, Plain separator.val name) →
      (∀ name ∈ names', Plain separator.val name) →
      format separator.val names = format separator.val names' → names = names') ∧
    (∀ (names : Segments) (name : String), (∀ n ∈ names ++ [name], Plain separator.val n) →
      parent separator (format separator.val (names ++ [name])) = format separator.val names) ∧
    (∀ names : Segments, (∀ name ∈ names, Plain separator.val name) → ∀ k : ℕ,
      normalize separator.val ((separator.val ++ ·)^[k] (format separator.val names)) =
        format separator.val names) ∧
    ∀ w : Workspace, w.settings.separator = separator →
      ∀ names : Segments, (∀ name ∈ names, Plain separator.val name) →
        (w.register (format separator.val names) none).1.sites =
          (if format separator.val names ∈ w.addresses then w.sites
          else w.sites ++ [(format separator.val names, w.root.join names)]) ∧
        ∀ S, ∀ m ∈ (w.found S).modules, m.segments = names →
          (m.address, m.directory) = (format separator.val names, w.root.join names) := by
  refine ⟨fun names names' h h' heq => ?_, fun names name h => parent_format h,
    fun names h k => ?_, ?_⟩
  · rw [← segments_format h, heq, segments_format h']
  · rw [normalize_iterate, normalize_format]
  · rintro w rfl names h
    refine ⟨Workspace.register_format h, ?_⟩
    rintro S m hm rfl
    exact Workspace.site_of_mem_found hm

/-- A separator that overlaps itself. -/
def colons : Separator := ⟨"::", by decide⟩

/-- A workspace with that separator and nothing registered. -/
def colonsWorkspace : Workspace :=
  ⟨⟨.root, ["w"]⟩, { Settings.standard with separator := colons }, .opened none, [], none, false⟩

/-- A module file two levels below the workspace directory. -/
def colonsSession : Session :=
  ⟨⟨[(["w"], .directory), (["w", "a"], .directory), (["w", "a", "b.c"], .directory),
    (["w", "a", "b.c", "water.yaml"], .file ByteArray.empty)], []⟩, [], ⟨.root, []⟩, Stamp.epoch⟩

theorem modules_colons : (colonsWorkspace.found colonsSession).modules =
    [⟨"a::b.c", ["a", "b.c"], ⟨.root, ["w", "a", "b.c"]⟩⟩] := by
  have hvisits : colonsWorkspace.rules.visits (colonsSession.files.tree colonsWorkspace.root) =
      [⟨[], .ok [⟨"a", true⟩]⟩, ⟨["a"], .ok [⟨"b.c", true⟩]⟩,
        ⟨["a", "b.c"], .ok [⟨"water.yaml", false⟩]⟩] := by
    cbv
  have hfinds : colonsWorkspace.rules.finds ⟨[], .ok [⟨"a", true⟩]⟩ = false ∧
      colonsWorkspace.rules.finds ⟨["a"], .ok [⟨"b.c", true⟩]⟩ = false ∧
      colonsWorkspace.rules.finds ⟨["a", "b.c"], .ok [⟨"water.yaml", false⟩]⟩ = true := by
    refine ⟨?_, ?_, ?_⟩ <;> cbv
  have haddress : format colonsWorkspace.rules.separator ["a", "b.c"] = "a::b.c" := by cbv
  have hjoin : (colonsSession.files.tree colonsWorkspace.root).pathOf ["a", "b.c"] =
      ⟨.root, ["w", "a", "b.c"]⟩ := by
    cbv
  change colonsWorkspace.rules.modulesOf (colonsSession.files.tree colonsWorkspace.root) []
    (colonsWorkspace.rules.visits (colonsSession.files.tree colonsWorkspace.root)) = _
  rw [hvisits]
  simp [WalkRules.modulesOf, hfinds, haddress, hjoin]

/-- A directory two levels below another one, with its address. -/
theorem plain_one_to_one_colons :
    (∀ names, (∀ name ∈ names, Plain "::" name) →
      format "::" names = format "::" ["a", "b.c"] → names = ["a", "b.c"]) ∧
    parent colons (format "::" ["a", "b.c"]) = "a" ∧
    normalize "::" ("::" ++ ("::" ++ ("::" ++ "a::b.c"))) = "a::b.c" ∧
    (colonsWorkspace.register "a::b.c" none).1.sites =
      [("a::b.c", ⟨.root, ["w", "a", "b.c"]⟩)] ∧
    ∀ m ∈ (colonsWorkspace.found colonsSession).modules,
      (m.address, m.directory) = ("a::b.c", ⟨.root, ["w", "a", "b.c"]⟩) := by
  obtain ⟨hinjective, hparent, hnormal, hplace⟩ := plain_one_to_one colons
  have hplain : ∀ name ∈ ["a", "b.c"], Plain "::" name :=
    List.forall_mem_cons.mpr ⟨⟨by simp, by simp, by simp, by simp⟩,
      List.forall_mem_singleton.mpr ⟨by simp, by simp, by simp, by simp⟩⟩
  have haddress : format "::" ["a", "b.c"] = "a::b.c" := by cbv
  have hdirectory : colonsWorkspace.root.join ["a", "b.c"] = ⟨.root, ["w", "a", "b.c"]⟩ := by cbv
  obtain ⟨hsites, hfound⟩ := hplace colonsWorkspace rfl ["a", "b.c"] hplain
  rw [hdirectory, show colons.val = "::" from rfl, haddress] at hsites hfound
  refine ⟨fun names h heq => hinjective names _ h hplain heq, ?_, ?_, ?_, fun m hm => ?_⟩
  · have htop : format colons.val ["a"] = "a" := by cbv
    exact (hparent ["a"] "b.c" hplain).trans htop
  · have hthree := hnormal ["a", "b.c"] hplain 3
    rwa [show colons.val = "::" from rfl, haddress] at hthree
  · rwa [if_neg (show "a::b.c" ∉ colonsWorkspace.addresses from List.not_mem_nil)] at hsites
  · have hsegments : m.segments = ["a", "b.c"] := by
      rw [modules_colons, List.mem_singleton] at hm
      rw [hm]
    exact hfound colonsSession m hm hsegments

end Address

end ModulePins
