import Mathlib
import ModulePins.Proofs.Discovery.Stored
import ModulePins.Proofs.Workspace.Configure

/-!
# Directories and modules

Which module a directory with a module file belongs to, once a workspace has been configured. There
is always one at the address of the directory, and it is the directory's own unless the address was
taken: by the workspace directory, whose address is empty, or by a directory that the walk came to
earlier. Addresses lose some of what the names of directories say, so this does happen: the names
`a` and `b` one below the other make the same address as the single name `a:b`.

## Main results

* `Workspace.sites_afterRegistration` — the sites, read off the walk
* `Workspace.configure_sites` — the module of each directory
* `Workspace.lost_directory` — a directory without a module of its own
-/

namespace ModulePins

namespace Workspace

open ModulePins.Task FileStore

variable {w w' : Workspace} {S S' : Session}

/-- The walk that a workspace starts is determined by its root and its settings. -/
theorem found_congr (hroot : w'.root = w.root) (hsettings : w'.settings = w.settings)
    (hfiles : S'.files = S.files) : found w' S' = found w S := by
  rw [found, found, hroot, hsettings, hfiles]

theorem found_register (w : Workspace) (address : String) (directory : Option Path) (S : Session) :
    found (w.register address directory).1 S = found w S := by
  obtain ⟨ps, hps⟩ := register_eq w address directory
  exact found_congr (by rw [hps]) (by rw [hps]) rfl

/-- The rules of the walk that a workspace starts. -/
abbrev rules (w : Workspace) : WalkRules := WalkRules.ofSettings w.settings

/-- The address of a directory below the root. -/
abbrev addressOf (w : Workspace) (names : Segments) : String :=
  Address.format w.settings.separator.val names

/-- The addresses that a walk finds are in normal form. -/
theorem normalize_of_mem_found (hdistinct : S.files.Distinct) {m : FoundModule}
    (hm : m ∈ (found w S).modules) : w.normalize m.address = m.address := by
  obtain ⟨names, -, rfl, -⟩ := (WalkRules.mem_modules_iff (distinct_tree hdistinct w.root)).mp hm
  exact Address.normalize_format _ _

/-- The sites of a fresh workspace when all modules have been registered: that of the workspace
directory, and those that the walk found under other addresses. -/
theorem sites_afterRegistration (hprojects : w.projects = []) (hdistinct : S.files.Distinct) :
    (w.afterRegistration S).sites = (Address.root, w.root) ::
      ((found w S).modules.filter fun m => m.address ≠ Address.root).map
        fun m => (m.address, m.directory) := by
  have hroot : w.normalize Address.root = Address.root := Address.normalize_root _
  have haddresses : w.addresses = [] := by rw [addresses, hprojects]; rfl
  have hsites : w.sites = [] := by rw [sites, hprojects]; rfl
  have hstep := sites_register w Address.root (some w.root)
  rw [hroot, if_neg (by simp [haddresses]), hsites, List.nil_append, siteOf, hroot] at hstep
  obtain ⟨ps, hps⟩ := register_eq w Address.root (some w.root)
  have hfound : found (w.register Address.root (some w.root)).1 S = found w S :=
    found_congr (by rw [hps]) (by rw [hps]) rfl
  rw [afterRegistration, hfound]
  let w₂ : Workspace :=
    { (w.register Address.root (some w.root)).1 with discovery := some (found w S) }
  have hw₂ : w₂.sites = [(Address.root, w.root)] := hstep
  have haddresses₂ : w₂.addresses = [Address.root] := by rw [← map_fst_sites, hw₂]; rfl
  have hnormal : ∀ m ∈ (found w S).modules, w₂.normalize m.address = m.address := by
    intro m hm
    have hsettings : w₂.settings = w.settings := by
      change (w.register Address.root (some w.root)).1.settings = _
      rw [hps]
    rw [normalize, hsettings]
    exact normalize_of_mem_found hdistinct hm
  have hnodup : ((found w S).modules.map FoundModule.address).Nodup :=
    WalkRules.nodup_addresses (distinct_tree hdistinct w.root)
  change (w₂.registerAll (found w S).modules).1.sites = _
  rw [sites_registerAll hnodup hnormal, hw₂, haddresses₂]
  simp

/-- The sites of a workspace whose first configuration has come to an end. -/
theorem sites_configure {r : Except Fault Unit} (hfresh : w.configured = false)
    (hprojects : w.projects = []) (hdistinct : S.files.Distinct)
    (hdone : exec configure (w, S) = (r, (w', S'))) :
    w'.sites = (Address.root, w.root) ::
      ((found w S).modules.filter fun m => m.address ≠ Address.root).map
        fun m => (m.address, m.directory) := by
  rw [(undisturbed_configure hfresh hdone).sites]
  exact sites_afterRegistration hprojects hdistinct

/-- No two modules have the same address. -/
theorem nodup_addresses_configure {r : Except Fault Unit} (hfresh : w.configured = false)
    (hprojects : w.projects = []) (hdistinct : S.files.Distinct)
    (hdone : exec configure (w, S) = (r, (w', S'))) : w'.addresses.Nodup := by
  have haddresses := WalkRules.nodup_addresses (r := w.rules) (distinct_tree hdistinct w.root)
  rw [← map_fst_sites, sites_configure hfresh hprojects hdistinct hdone, List.map_cons,
    List.map_map, List.nodup_cons]
  constructor
  · simp
  · exact haddresses.sublist (List.filter_sublist.map _)

/-! ### Two directories with one address -/

/-- Two directories with the same address, `a/b` and `a:b`, each with an empty module file. -/
def twins : FileStore where
  nodes :=
    [(["w"], .directory), (["w", "a"], .directory), (["w", "a", "b"], .directory),
      (["w", "a", "b", "water.yaml"], .file ByteArray.empty), (["w", "a:b"], .directory),
      (["w", "a:b", "water.yaml"], .file ByteArray.empty)]
  current := []

/-- A fresh workspace over the two directories. -/
def twinsWorkspace : Workspace :=
  ⟨⟨.root, ["w"]⟩, .standard, .opened none, [], none, false⟩

def twinsSession : Session := ⟨twins, [], ⟨.root, []⟩, Stamp.epoch⟩

theorem visits_twins : twinsWorkspace.rules.visits (twins.tree twinsWorkspace.root) =
    [⟨[], .ok [⟨"a", true⟩, ⟨"a:b", true⟩]⟩, ⟨["a"], .ok [⟨"b", true⟩]⟩,
      ⟨["a", "b"], .ok [⟨"water.yaml", false⟩]⟩, ⟨["a:b"], .ok [⟨"water.yaml", false⟩]⟩] := by
  cbv

theorem modules_twins : (found twinsWorkspace twinsSession).modules =
    [⟨"a:b", ["a", "b"], ⟨.root, ["w", "a", "b"]⟩⟩] := by
  have hfinds : twinsWorkspace.rules.finds ⟨[], .ok [⟨"a", true⟩, ⟨"a:b", true⟩]⟩ = false ∧
      twinsWorkspace.rules.finds ⟨["a"], .ok [⟨"b", true⟩]⟩ = false ∧
      twinsWorkspace.rules.finds ⟨["a", "b"], .ok [⟨"water.yaml", false⟩]⟩ = true ∧
      twinsWorkspace.rules.finds ⟨["a:b"], .ok [⟨"water.yaml", false⟩]⟩ = true := by
    refine ⟨?_, ?_, ?_, ?_⟩ <;> cbv
  have hfirst : Address.format twinsWorkspace.rules.separator ["a", "b"] = "a:b" := by cbv
  have hsecond : Address.format twinsWorkspace.rules.separator ["a:b"] = "a:b" := by cbv
  have hjoin : (twins.tree twinsWorkspace.root).pathOf ["a", "b"] = ⟨.root, ["w", "a", "b"]⟩ := by
    cbv
  change twinsWorkspace.rules.modulesOf (twins.tree twinsWorkspace.root) []
    (twinsWorkspace.rules.visits (twins.tree twinsWorkspace.root)) = _
  rw [visits_twins]
  simp [WalkRules.modulesOf, hfinds, hfirst, hsecond, hjoin]

/-- The workspace over the two directories when all modules have been registered. -/
theorem afterRegistration_twins : ∃ discovery, twinsWorkspace.afterRegistration twinsSession =
    ⟨⟨.root, ["w"]⟩, .standard, .opened none,
      [{ address := "", directory := ⟨.root, ["w"]⟩, descriptor := { name := ":" } },
        { address := "a:b", directory := ⟨.root, ["w", "a", "b"]⟩,
          descriptor := { name := ":a:b" } }], discovery, false⟩ := by
  obtain ⟨ps, hps⟩ := register_eq twinsWorkspace Address.root (some twinsWorkspace.root)
  have hfound : found (twinsWorkspace.register Address.root (some twinsWorkspace.root)).1
      twinsSession = found twinsWorkspace twinsSession :=
    found_congr (by rw [hps]) (by rw [hps]) rfl
  rw [afterRegistration, hfound, modules_twins]
  refine ⟨some (found twinsWorkspace twinsSession), ?_⟩
  generalize found twinsWorkspace twinsSession = d
  cbv

theorem configure_twins : ∃ w S,
    exec configure (twinsWorkspace, twinsSession) = (.ok (), (w, S)) := by
  obtain ⟨log, hexec⟩ := exec_configure (w := twinsWorkspace) rfl twinsSession
  obtain ⟨discovery, hregistered⟩ := afterRegistration_twins
  rw [hexec, hregistered]
  refine ⟨_, _, Prod.ext ?_ rfl⟩
  cbv

theorem distinct_twins : twins.Distinct := by
  simp [twins, Distinct]

theorem holdsModule_twins : twins.HoldsModule twinsWorkspace.root twinsWorkspace.rules ["a:b"] where
  below := by simp
  included := by decide
  leads := by
    intro above hbelow
    rcases List.prefix_cons_iff.mp hbelow with rfl | ⟨rest, rfl, hrest⟩
    · rfl
    · rw [List.prefix_nil.mp hrest]
      rfl
  entry := ⟨.file ByteArray.empty, rfl, by simp⟩

/-- **The module of each directory.** When a fresh workspace has been configured, there is a module
at the address of every directory below the root that holds a module file. If the address is empty,
this is the module of the workspace directory; otherwise it lies in the first directory with this
address that the walk came to, which is the directory itself unless an earlier one has the same
address. Two directories belong to the same module exactly if they have the same address. -/
theorem configure_sites (hfresh : w.configured = false) (hprojects : w.projects = [])
    (hdistinct : S.files.Distinct) (hdone : exec configure (w, S) = (.ok (), (w', S'))) :
    (∀ names, S.files.HoldsModule w.root w.rules names →
      ∃ p ∈ w'.projects, p.address = w.addressOf names ∧
        (w.addressOf names = Address.root → p.directory = w.root) ∧
        (w.addressOf names ≠ Address.root →
          ∃ first, S.files.HoldsModule w.root w.rules first ∧
            w.addressOf first = w.addressOf names ∧ p.directory = w.root.join first ∧
            ∀ other, S.files.HoldsModule w.root w.rules other →
              w.addressOf other = w.addressOf names → first ≤ other)) ∧
    ∀ p ∈ w'.projects, ∀ q ∈ w'.projects, p.address = q.address → p = q := by
  have hsites := sites_configure hfresh hprojects hdistinct hdone
  refine ⟨fun names hnames => ?_, fun p hp q hq heq => ?_⟩
  · by_cases hroot : w.addressOf names = Address.root
    · obtain ⟨p, hp, haddress, hdirectory⟩ :=
        mem_sites_iff.mp (hsites ▸ List.mem_cons_self : (Address.root, w.root) ∈ w'.sites)
      exact ⟨p, hp, haddress.trans hroot.symm, fun _ => hdirectory, fun hne => absurd hroot hne⟩
    · have ht := distinct_tree hdistinct w.root
      obtain ⟨first, hfirst, hmem, hsame, hleast⟩ :=
        WalkRules.exists_first ht ((marked_iff hdistinct).mpr hnames)
      have hne : (w.rules.moduleAt (S.files.tree w.root) first).address ≠ Address.root :=
        fun heq => hroot (hsame.symm.trans heq)
      have hsite : (w.addressOf first, w.root.join first) ∈ w'.sites := by
        rw [hsites]
        refine List.mem_cons_of_mem _ (List.mem_map.mpr ⟨_, List.mem_filter.mpr ⟨hmem, ?_⟩, rfl⟩)
        exact decide_eq_true hne
      obtain ⟨p, hp, haddress, hdirectory⟩ := mem_sites_iff.mp hsite
      refine ⟨p, hp, haddress.trans hsame, fun h => absurd h hroot, fun _ => ?_⟩
      refine ⟨first, (marked_iff hdistinct).mp hfirst, hsame, hdirectory, fun other hother heq => ?_⟩
      exact hleast other ((marked_iff hdistinct).mpr hother) heq
  · have hnodup := nodup_addresses_configure hfresh hprojects hdistinct hdone
    exact List.inj_on_of_nodup_map hnodup hp hq heq

theorem configure_sites_twins : ∃ w S,
    exec configure (twinsWorkspace, twinsSession) = (.ok (), (w, S)) ∧
      ∃ p ∈ w.projects, p.address = twinsWorkspace.addressOf ["a:b"] := by
  obtain ⟨w, S, hdone⟩ := configure_twins
  have hmodule := (configure_sites rfl rfl distinct_twins hdone).1 ["a:b"] holdsModule_twins
  obtain ⟨p, hp, haddress, -⟩ := hmodule
  exact ⟨w, S, hdone, p, hp, haddress⟩

/-- A directory with a module file need not be the directory of a module: here `a/b` is found first,
and `a:b` has the same address. -/
theorem lost_directory : ∃ w S,
    exec configure (twinsWorkspace, twinsSession) = (.ok (), (w, S)) ∧
      twins.HoldsModule twinsWorkspace.root twinsWorkspace.rules ["a:b"] ∧
      twins.node? ["w", "a:b", "water.yaml"] = some (.file ByteArray.empty) ∧
      ∀ p ∈ w.projects, p.directory ≠ twinsWorkspace.root.join ["a:b"] := by
  obtain ⟨w, S, hdone⟩ := configure_twins
  refine ⟨w, S, hdone, holdsModule_twins, rfl, fun p hp hlost => ?_⟩
  have hjoin : twinsWorkspace.root.join ["a:b"] = ⟨.root, ["w", "a:b"]⟩ := by cbv
  have hsite : (p.address, p.directory) ∈ w.sites := mem_sites_iff.mpr ⟨p, hp, rfl, rfl⟩
  rw [sites_configure rfl rfl distinct_twins hdone, modules_twins, hlost, hjoin] at hsite
  simp [twinsWorkspace, Address.root] at hsite

end Workspace

end ModulePins
