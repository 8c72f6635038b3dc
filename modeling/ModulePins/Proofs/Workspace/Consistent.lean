import ModulePins.Proofs.Emission.Reading
import ModulePins.Proofs.Workspace.Configure

/-!
# Consistent workspaces

What every workspace keeps: no two of its modules have the same address, the addresses are in normal
form, and what its cache knows can be written and read back. So a module is found under its own
address, at the position where it was registered.

## Main definitions

* `Workspace.Consistent` — what every workspace keeps

## Main results

* `Workspace.Consistent.find?_eq`, `Workspace.Consistent.position?_eq` — a module is found
* `Workspace.Consistent.register`, `Workspace.consistent_configure` — how it is kept
-/

namespace ModulePins

namespace Workspace

open ModulePins.Task

variable {w w' : Workspace} {S S' : Session} {p : Project} {i : ℕ}

/-- Every module has an address of its own, in normal form, and what the cache knows can be saved. -/
structure Consistent (w : Workspace) : Prop where
  nodup : w.addresses.Nodup
  normal : ∀ address ∈ w.addresses, w.normalize address = address
  sound : ∀ s ∈ w.cache.state, s.Sound

/-! ### Finding modules -/

theorem Consistent.find?_eq (h : w.Consistent) (hp : p ∈ w.projects) :
    w.find? p.address = some p := by
  cases hq : w.find? p.address with
  | none => exact absurd (List.mem_map_of_mem hp) (find?_eq_none_iff.mp hq)
  | some q =>
    have heq : q.address = p.address := address_of_find? hq
    rw [List.inj_on_of_nodup_map h.nodup (List.mem_of_find?_eq_some hq) hp heq]

theorem Consistent.get_eq (h : w.Consistent) (hp : p ∈ w.projects) : w.get p.address = .ok p := by
  rw [Workspace.get, h.normal p.address (List.mem_map_of_mem hp), h.find?_eq hp]

/-- A module stands where it was registered. -/
theorem Consistent.position?_eq (h : w.Consistent) (hp : w.projects[i]? = some p) :
    w.position? p.address = some i := by
  obtain ⟨hi, rfl⟩ := List.getElem?_eq_some_iff.mp hp
  rw [position?, List.findIdx?_eq_some_iff_getElem]
  refine ⟨hi, by simp, fun j hj heq => ?_⟩
  have hsame : w.addresses[j]? = w.addresses[i]? := by
    simpa [addresses, hi, hj.trans hi] using heq
  have hlength : j < w.addresses.length := by simpa [addresses] using hj.trans hi
  exact hj.ne ((List.getElem?_inj hlength h.nodup).mp hsame)

/-! ### Creating and registering -/

/-- A workspace that has just been created knows no modules. -/
theorem eq_of_create {directory : Path} {settings : Option Settings} {inMemory : Bool}
    (h : exec (create directory settings inMemory) S = (.ok w, S')) :
    ∃ root settings path, w = ⟨root, settings, Cache.opened path, [], none, false⟩ := by
  rw [create, exec_bind] at h
  generalize exec (Session.realPath directory) S = real at h
  obtain ⟨_ | root, S₁⟩ := real
  · cases h
  · dsimp only at h
    cases settings with
    | some s =>
      rw [exec_bind, exec_pure] at h
      cases h
      exact ⟨_, _, _, rfl⟩
    | none =>
      dsimp only at h
      rw [exec_bind] at h
      generalize exec (Settings.load root) S₁ = loaded at h
      obtain ⟨_ | s, S₂⟩ := loaded
      · cases h
      · cases h
        exact ⟨_, _, _, rfl⟩

theorem eq_nil_of_create {directory : Path} {settings : Option Settings} {inMemory : Bool}
    (h : exec (create directory settings inMemory) S = (.ok w, S')) : w.projects = [] := by
  obtain ⟨root, settings, path, rfl⟩ := eq_of_create h
  rfl

theorem consistent_create {directory : Path} {settings : Option Settings} {inMemory : Bool}
    (h : exec (create directory settings inMemory) S = (.ok w, S')) : w.Consistent := by
  obtain ⟨root, settings, path, rfl⟩ := eq_of_create h
  exact ⟨List.nodup_nil, by simp [addresses], by simp [Cache.opened]⟩

theorem Consistent.register (h : w.Consistent) (address : String) (directory : Option Path) :
    (w.register address directory).1.Consistent := by
  have hsites := sites_register w address directory
  obtain ⟨ps, hps⟩ := register_eq w address directory
  generalize (w.register address directory).1 = w₁ at hsites hps ⊢
  have hkeep : ∀ a, w₁.normalize a = w.normalize a := fun a => by rw [hps]; rfl
  have haddresses : w₁.addresses = if w.normalize address ∈ w.addresses then w.addresses
      else w.addresses ++ [w.normalize address] := by
    rw [← map_fst_sites, hsites]
    split <;> simp [map_fst_sites, siteOf]
  refine ⟨?_, fun a ha => ?_, by rw [hps]; exact h.sound⟩
  · rw [haddresses]
    split
    · exact h.nodup
    · rename_i hnew
      exact h.nodup.append (List.nodup_singleton _) (List.disjoint_singleton.mpr hnew)
  · rw [hkeep]
    rw [haddresses] at ha
    split at ha
    · exact h.normal a ha
    · rcases List.mem_append.mp ha with ha | ha
      · exact h.normal a ha
      · rw [List.mem_singleton.mp ha]
        exact Address.normalize_normalize _ _

theorem Consistent.registerAll (h : w.Consistent) (ms : List FoundModule) :
    (w.registerAll ms).1.Consistent := by
  induction ms generalizing w with
  | nil => exact h
  | cons m ms ih => exact ih (h.register m.address (some m.directory))

theorem Consistent.afterRegistration (h : w.Consistent) (S : Session) :
    (w.afterRegistration S).Consistent := by
  have hroot := h.register Address.root (some w.root)
  have hwalked (discovery : Option Discovery) :
      { (w.register Address.root (some w.root)).1 with discovery }.Consistent :=
    ⟨hroot.nodup, hroot.normal, hroot.sound⟩
  exact (hwalked _).registerAll _

/-! ### Configuring -/

theorem Consistent.of_undisturbed (h : w.Consistent) (hrest : Undisturbed (w, S) (w', S')) :
    w'.Consistent := by
  have haddresses : w'.addresses = w.addresses := by
    rw [← map_fst_sites, ← map_fst_sites, hrest.sites]
  refine ⟨haddresses ▸ h.nodup, fun a ha => ?_, hrest.cache ▸ h.sound⟩
  rw [haddresses] at ha
  rw [normalize, hrest.settings]
  exact h.normal a ha

/-- Configuring keeps a workspace consistent, however it ends. -/
theorem Consistent.configure {r : Except Fault Unit} (h : w.Consistent)
    (hdone : exec configure (w, S) = (r, (w', S'))) : w'.Consistent := by
  cases hconfigured : w.configured with
  | false => exact (h.afterRegistration S).of_undisturbed (undisturbed_configure hconfigured hdone)
  | true =>
    rw [exec_configure_of_configured hconfigured] at hdone
    cases hdone
    exact h

end Workspace

end ModulePins
