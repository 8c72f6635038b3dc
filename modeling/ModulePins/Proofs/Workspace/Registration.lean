import Mathlib.Data.List.DropRight
import Mathlib.Data.List.Nodup
import ModulePins.Workspace.Basic

/-!
# Registered modules

Where the modules of a workspace lie: `Workspace.sites` lists their addresses with their
directories. Registering adds one site, unless there is one with the same address already; it is the
address in its normal form that counts, and a normal form is its own.

## Main definitions

* `Workspace.sites` — addresses and directories, in the order of registration

## Main results

* `Address.normalize_normalize`, `Address.normalize_format`
* `Workspace.sites_register`, `Workspace.sites_registerAll`
-/

namespace ModulePins

namespace Address

variable {separator : String}

/-- Dropping separator characters once is enough. -/
theorem normalize_normalize (separator address : String) :
    normalize separator (normalize separator address) = normalize separator address := by
  rw [normalize, normalize, Text.dropLeading, Text.dropLeading, String.toList_ofList,
    List.dropWhile_idempotent]

theorem normalize_format (separator : String) (segments : Segments) :
    normalize separator (format separator segments) = format separator segments :=
  normalize_normalize _ _

theorem normalize_root (separator : String) : normalize separator root = root := by
  simp [normalize, Text.dropLeading, root]

end Address

namespace Workspace

variable {w : Workspace} {address : String} {directory : Option Path}

/-- Where the modules lie, by address, in the order of registration. -/
def sites (w : Workspace) : List (String × Path) :=
  w.projects.map fun p => (p.address, p.directory)

theorem map_fst_sites (w : Workspace) : w.sites.map Prod.fst = w.addresses := by
  rw [sites, List.map_map]
  rfl

theorem mem_sites_iff {site : String × Path} :
    site ∈ w.sites ↔ ∃ p ∈ w.projects, p.address = site.1 ∧ p.directory = site.2 := by
  obtain ⟨address, directory⟩ := site
  simp [sites]

theorem find?_eq_none_iff : w.find? address = none ↔ address ∉ w.addresses := by
  simp [find?, addresses]

theorem address_of_find? {p : Project} (h : w.find? address = some p) : p.address = address := by
  simpa using List.find?_some h

/-- Where a module that is registered will lie. -/
def siteOf (w : Workspace) (address : String) (directory : Option Path) : String × Path :=
  (w.normalize address, directory.getD (w.directoryOf (w.normalize address)))

/-- **Registering** adds a site, unless the address has one already. -/
theorem sites_register (w : Workspace) (address : String) (directory : Option Path) :
    (w.register address directory).1.sites =
      if w.normalize address ∈ w.addresses then w.sites
      else w.sites ++ [w.siteOf address directory] := by
  rw [register]
  cases hfind : w.find? (w.normalize address) with
  | none => rw [if_neg (find?_eq_none_iff.mp hfind)]; simp [sites, siteOf]
  | some p =>
    have hmem : w.normalize address ∈ w.addresses := by
      by_contra hnot
      rw [find?_eq_none_iff.mpr hnot] at hfind
      cases hfind
    rw [if_pos hmem]

theorem mem_addresses_register (w : Workspace) (a : String) (directory : Option Path) :
    w.normalize a ∈ (w.register a directory).1.addresses := by
  rw [← map_fst_sites, sites_register]
  split
  · rwa [map_fst_sites]
  · simp [siteOf]

/-- Registering changes nothing but the projects. -/
theorem register_eq (w : Workspace) (address : String) (directory : Option Path) :
    ∃ projects, (w.register address directory).1 = { w with projects } := by
  rw [register]
  dsimp only
  split
  · exact ⟨_, rfl⟩
  · exact ⟨_, rfl⟩

theorem normalize_register (w : Workspace) (address : String) (directory : Option Path) (a : String) :
    (w.register address directory).1.normalize a = w.normalize a := by
  obtain ⟨ps, hps⟩ := register_eq w address directory
  rw [hps]
  rfl

theorem registerAll_cons (w : Workspace) (m : FoundModule) (ms : List FoundModule) :
    (w.registerAll (m :: ms)).1 = ((w.register m.address (some m.directory)).1.registerAll ms).1 := rfl

theorem registerAll_eq (w : Workspace) (ms : List FoundModule) :
    ∃ projects, (w.registerAll ms).1 = { w with projects } := by
  induction ms generalizing w with
  | nil => exact ⟨_, rfl⟩
  | cons m ms ih =>
    obtain ⟨ps, hps⟩ := register_eq w m.address (some m.directory)
    obtain ⟨qs, hqs⟩ := ih (w.register m.address (some m.directory)).1
    refine ⟨qs, ?_⟩
    rw [registerAll]
    dsimp only
    rw [hqs, hps]

/-- **Registering modules that were found**, each under an address of its own. Those whose address
is taken already lie where they lie. -/
theorem sites_registerAll {ms : List FoundModule} (hdistinct : (ms.map FoundModule.address).Nodup)
    (hnormal : ∀ m ∈ ms, w.normalize m.address = m.address) :
    (w.registerAll ms).1.sites = w.sites ++
      (ms.filter fun m => m.address ∉ w.addresses).map fun m => (m.address, m.directory) := by
  induction ms generalizing w with
  | nil => simp [registerAll]
  | cons m ms ih =>
    rw [List.map_cons, List.nodup_cons] at hdistinct
    obtain ⟨hm, hms⟩ := List.forall_mem_cons.mp hnormal
    have hstep := sites_register w m.address (some m.directory)
    rw [hm] at hstep
    obtain ⟨ps, hps⟩ := register_eq w m.address (some m.directory)
    rw [registerAll]
    dsimp only
    generalize (w.register m.address (some m.directory)).1 = w₁ at hstep hps ⊢
    have hms' : ∀ m ∈ ms, w₁.normalize m.address = m.address := by rwa [hps]
    rw [ih hdistinct.2 hms']
    by_cases hmem : m.address ∈ w.addresses
    · rw [if_pos hmem] at hstep
      have haddresses : w₁.addresses = w.addresses := by
        rw [← map_fst_sites, hstep, map_fst_sites]
      rw [hstep, haddresses, List.filter_cons_of_neg (by simpa using hmem)]
    · rw [if_neg hmem] at hstep
      have haddresses : w₁.addresses = w.addresses ++ [m.address] := by
        rw [← map_fst_sites, hstep, List.map_append, map_fst_sites, siteOf, hm]
        rfl
      have hlater : (ms.filter fun m => m.address ∉ w₁.addresses) =
          ms.filter fun m => m.address ∉ w.addresses := by
        refine List.filter_congr fun m' hm' => ?_
        have hne : m'.address ≠ m.address := fun heq =>
          hdistinct.1 (heq ▸ List.mem_map_of_mem hm')
        simp [haddresses, hne]
      rw [hstep, hlater, List.filter_cons_of_pos (by simpa using hmem), List.map_cons,
        List.append_assoc, siteOf, hm]
      rfl

end Workspace

end ModulePins
