import Mathlib.Order.Monotone.Basic
import ModulePins.Proofs.Address
import ModulePins.Proofs.Workspace.Publish
import ModulePins.Proofs.Workspace.SetUp

/-!
# The tree of modules

The modules of a configured workspace are a tree, and the module of the workspace directory is its
root. The module above another one is looked for along the addresses before the last separator, one
after the other, until there is a module or nothing is left of the address. With a separator of one
character no address above is passed over in this way, whether or not the addresses are those of
directories, so the module that is found is the closest one. It has a shorter address, and going up
comes to an end.

A separator of more characters may overlap itself, and then an address above need not be met.

## Main definitions

* `Workspace.Stops` — an address where the search ends
* `Workspace.Closest` — the module right above another one

## Main results

* `Workspace.Reached.root_mem` — a configured workspace has a module for its directory
* `Workspace.nearest?_eq_find?` — the search as a run over addresses
* `Workspace.parentOf_tree` — the tree
-/

namespace ModulePins

/-! ### Going up -/

namespace Address

variable {separator : Separator} {address above : String}

theorem parent_root (separator : Separator) : parent separator root = root := by
  rcases parent_eq_root_or_above separator root with h | h
  · exact h
  · exact absurd h.length_lt (Nat.not_lt_zero _)

theorem length_parent_le (separator : Separator) (address : String) :
    (parent separator address).length ≤ address.length := by
  rcases eq_or_ne address root with rfl | hne
  · rw [parent_root]
  · exact (length_parent hne).le

theorem antitone_length_iterate_parent (separator : Separator) (address : String) :
    Antitone fun k => ((parent separator)^[k] address).length :=
  antitone_nat_of_succ_le fun k => by
    rw [Function.iterate_succ_apply']
    exact length_parent_le _ _

theorem iterate_parent_eq_root_or_above (separator : Separator) (address : String) (k : ℕ) :
    (parent separator)^[k + 1] address = root ∨
      Above separator.val ((parent separator)^[k + 1] address) address := by
  induction k with
  | zero => exact parent_eq_root_or_above separator address
  | succ k ih =>
    rw [Function.iterate_succ_apply']
    rcases ih with hroot | habove
    · rw [hroot, parent_root]
      exact .inl rfl
    · exact (parent_eq_root_or_above separator _).imp id fun h => h.trans habove

/-- Going up passes by everything above an address. -/
theorem Above.exists_iterate_parent (hone : separator.val.length = 1)
    (h : Above separator.val above address) :
    ∃ k, (Address.parent separator)^[k + 1] address = above := by
  induction hlength : address.length using Nat.strong_induction_on generalizing address with
  | _ n ih =>
    rcases h.parent hone with rfl | hparent
    · exact ⟨0, rfl⟩
    · have hne : address ≠ "" := by
        rintro rfl
        exact Nat.not_lt_zero _ h.length_lt
      obtain ⟨k, hk⟩ := ih _ (hlength ▸ length_parent hne) hparent rfl
      exact ⟨k + 1, hk⟩

end Address

namespace Workspace

open ModulePins.Task

variable {w : Workspace} {p q : Project}

/-! ### The root -/

/-- **A configured workspace has a module for its directory**, whatever else was done to it. -/
theorem Reached.root_mem (h : w.Reached) (hconfigured : w.configured = true) :
    Address.root ∈ w.addresses := by
  induction h with
  | created h =>
    obtain ⟨root, settings, path, rfl⟩ := eq_of_create h
    cases hconfigured
  | @registered w before address directory ih =>
    obtain ⟨ps, hps⟩ := register_eq w address directory
    rw [hps] at hconfigured
    exact (addresses_prefix_of_sites (sites_prefix_register w _ _)).subset (ih hconfigured)
  | @configured w w' S S' r before h ih =>
    cases hbefore : w.configured with
    | false =>
      rw [← map_fst_sites, (undisturbed_configure hbefore h).sites, map_fst_sites]
      exact root_mem_afterRegistration w S
    | true =>
      rw [exec_configure_of_configured hbefore] at h
      cases h
      exact ih hbefore
  | @finalized w w' S S' force r before homed h ih =>
    cases hbefore : w.configured with
    | true =>
      obtain ⟨r', c, S₁, -, hexec⟩ := before.consistent.exec_finalize hbefore force S
      rw [h] at hexec
      cases hexec
      exact ih hbefore
    | false =>
      obtain ⟨f, hexec⟩ := exec_finalize_of_unconfigured hbefore force S
      rw [h] at hexec
      cases hexec
      rw [hbefore] at hconfigured
      cases hconfigured

/-! ### The search -/

theorem nearest?_empty (w : Workspace) : w.nearest? "" = w.find? "" := by
  rw [nearest?, if_pos rfl]

theorem nearest?_of_ne (w : Workspace) {address : String} (h : address ≠ "") :
    w.nearest? address =
      match w.find? address with
      | some p => some p
      | none => w.nearest? (Address.parent w.settings.separator address) := by
  rw [nearest?]
  exact if_neg h

/-- The search for a module ends at an address: nothing is left of it, or it is that of a module. -/
def Stops (w : Workspace) (address : String) : Prop :=
  address = Address.root ∨ address ∈ w.addresses

/-- **The search** goes up as long as it does not end, and has the module there, if any. -/
theorem nearest?_eq_find? (w : Workspace) (address : String) :
    ∃ n, w.Stops ((Address.parent w.settings.separator)^[n] address) ∧
      (∀ k < n, ¬ w.Stops ((Address.parent w.settings.separator)^[k] address)) ∧
      w.nearest? address = w.find? ((Address.parent w.settings.separator)^[n] address) := by
  induction address using nearest?.induct w with
  | case1 => exact ⟨0, .inl rfl, by simp, w.nearest?_empty⟩
  | case2 address hne p hp =>
    refine ⟨0, .inr ?_, by simp, ?_⟩
    · by_contra hmem
      rw [Function.iterate_zero_apply, ← find?_eq_none_iff, hp] at hmem
      cases hmem
    · rw [nearest?_of_ne w hne, hp]
      exact hp.symm
  | case3 address hne hnone ih =>
    obtain ⟨n, hstops, hearlier, hfind⟩ := ih
    refine ⟨n + 1, hstops, fun k hk => ?_, ?_⟩
    · cases k with
      | zero =>
        rintro (hroot | hmem)
        · exact hne hroot
        · exact find?_eq_none_iff.mp hnone hmem
      | succ k => exact hearlier k (Nat.lt_of_succ_lt_succ hk)
    · rw [nearest?_of_ne w hne, hnone]
      exact hfind

/-! ### The closest module -/

theorem isRoot_iff : p.isRoot = true ↔ p.address = Address.root := decide_eq_true_iff

/-- The module `q` is the one right above `p`. -/
structure Closest (w : Workspace) (p q : Project) : Prop where
  mem : q ∈ w.projects
  ne : q ≠ p
  above : q.isRoot = true ∨ Address.Above w.settings.separator.val q.address p.address
  longest : ∀ q' ∈ w.projects, q'.isRoot = false →
    Address.Above w.settings.separator.val q'.address p.address →
      q'.address.length ≤ q.address.length

/-- There is one module right above another one at most. -/
theorem Closest.unique {q' : Project} (h : w.Closest p q) (h' : w.Closest p q')
    (hdistinct : w.addresses.Nodup) : q = q' := by
  suffices haddress : q.address = q'.address from
    List.inj_on_of_nodup_map hdistinct h.mem h'.mem haddress
  have hempty {q q' : Project} (h : w.Closest p q) (h' : w.Closest p q') (hroot : q.isRoot = true) :
      q'.isRoot = true := by
    by_contra hnot
    have hshort := h.longest q' h'.mem (by simpa using hnot) (h'.above.resolve_left hnot)
    rw [isRoot_iff.mp hroot] at hshort
    exact hnot (isRoot_iff.mpr (String.length_eq_zero_iff.mp (Nat.le_zero.mp hshort)))
  by_cases hroot : q.isRoot = true
  · rw [isRoot_iff.mp hroot, isRoot_iff.mp (hempty h h' hroot)]
  · have hroot' : ¬ q'.isRoot = true := mt (hempty h' h) hroot
    have habove := h.above.resolve_left hroot
    have habove' := h'.above.resolve_left hroot'
    have hlength : q.address.length = q'.address.length :=
      le_antisymm (h'.longest q h.mem (by simpa using hroot) habove)
        (h.longest q' h'.mem (by simpa using hroot') habove')
    -- both stand at the beginning of the address
    obtain ⟨rest, hrest⟩ := habove
    obtain ⟨rest', hrest'⟩ := habove'
    have htext := congrArg String.toList (hrest.symm.trans hrest')
    simp only [String.toList_append, List.append_assoc] at htext
    exact String.toList_inj.mp (List.append_inj_left htext (by rwa [String.length_toList, String.length_toList]))

/-- Every other module than the root has one right above it, which has a shorter address. -/
theorem exists_closest (hmem : Address.root ∈ w.addresses)
    (hone : w.settings.separator.val.length = 1) (hp : p.isRoot = false) :
    ∃ q, w.parentOf p = some q ∧ w.Closest p q ∧ q.address.length < p.address.length := by
  obtain ⟨n, hstops, hearlier, hfind⟩ :=
    w.nearest?_eq_find? (Address.parent w.settings.separator p.address)
  have hregistered : (Address.parent w.settings.separator)^[n + 1] p.address ∈ w.addresses :=
    hstops.elim (fun h => h ▸ hmem) id
  obtain ⟨q, hq⟩ : ∃ q, w.find? ((Address.parent w.settings.separator)^[n + 1] p.address) = some q :=
    Option.ne_none_iff_exists'.mp fun hnone => find?_eq_none_iff.mp hnone hregistered
  have haddress : q.address = (Address.parent w.settings.separator)^[n + 1] p.address :=
    address_of_find? hq
  have hantitone := Address.antitone_length_iterate_parent w.settings.separator p.address
  have hshorter : q.address.length < p.address.length := by
    have hne : p.address ≠ "" := of_decide_eq_false hp
    rw [haddress]
    exact (hantitone (Nat.le_add_left 1 n)).trans_lt (Address.length_parent hne)
  refine ⟨q, ?_, ⟨List.mem_of_find?_eq_some hq, ?_, ?_, fun q' hq' hnot habove => ?_⟩, hshorter⟩
  · rw [parentOf, if_neg (by simp [hp]), hfind]
    exact hq
  · rintro rfl
    exact hshorter.false
  · rw [isRoot_iff, haddress]
    exact Address.iterate_parent_eq_root_or_above _ _ n
  · -- the search passes by `q'`, and it has not ended before `q`
    obtain ⟨k, hk⟩ := habove.exists_iterate_parent hone
    have hle : n ≤ k := by
      by_contra hlt
      have hmem' : q'.address ∈ w.addresses := List.mem_map_of_mem hq'
      exact hearlier k (Nat.lt_of_not_le hlt) (.inr (hk ▸ hmem'))
    rw [haddress, ← hk]
    exact hantitone (Nat.succ_le_succ hle)

theorem parentOf_eq_none_iff (hmem : Address.root ∈ w.addresses)
    (hone : w.settings.separator.val.length = 1) : w.parentOf p = none ↔ p.isRoot = true := by
  cases hroot : p.isRoot with
  | true => simp [parentOf, hroot]
  | false =>
    obtain ⟨q, hq, -⟩ := exists_closest hmem hone hroot
    simp [hq]

/-- Going up from module to module ends at the root. -/
theorem exists_iterate_parentOf (hmem : Address.root ∈ w.addresses)
    (hone : w.settings.separator.val.length = 1) (hp : p ∈ w.projects) :
    ∃ n, ∃ r ∈ w.projects, r.isRoot = true ∧ (·.bind w.parentOf)^[n] (some p) = some r := by
  induction hlength : p.address.length using Nat.strong_induction_on generalizing p with
  | _ l ih =>
    cases hroot : p.isRoot with
    | true => exact ⟨0, p, hp, hroot, rfl⟩
    | false =>
      obtain ⟨q, hq, hclosest, hshorter⟩ := exists_closest hmem hone hroot
      obtain ⟨n, r, hr, hrroot, hrun⟩ := ih _ (hlength ▸ hshorter) hclosest.mem rfl
      refine ⟨n + 1, r, hr, hrroot, ?_⟩
      rw [Function.iterate_succ_apply, Option.bind_some, hq]
      exact hrun

/-- **The modules are a tree.** A configured workspace with a separator of one character has exactly
one root among its modules, whatever addresses were registered, and only above the root there is no
module. From every other one the search goes up a number of times and ends, and what it has is the
closest module. Going up from module to module leads to the root. -/
theorem parentOf_tree (hreached : w.Reached) (hconfigured : w.configured = true)
    (hone : w.settings.separator.val.length = 1) :
    ∃ r ∈ w.projects, (∀ p ∈ w.projects, p.isRoot = true ↔ p = r) ∧
      ∀ p ∈ w.projects,
        (w.parentOf p = none ↔ p = r) ∧
        (p ≠ r →
          (∃ n, w.Stops ((Address.parent w.settings.separator)^[n + 1] p.address) ∧
            (∀ k < n, ¬ w.Stops ((Address.parent w.settings.separator)^[k + 1] p.address)) ∧
            w.parentOf p = w.find? ((Address.parent w.settings.separator)^[n + 1] p.address)) ∧
          ∀ q, w.parentOf p = some q ↔ w.Closest p q) ∧
        ∃ n, (·.bind w.parentOf)^[n] (some p) = some r := by
  have hmem := hreached.root_mem hconfigured
  have hdistinct := hreached.consistent.nodup
  obtain ⟨r, hr, hraddress⟩ := List.mem_map.mp hmem
  have hroot (p : Project) (hp : p ∈ w.projects) : p.isRoot = true ↔ p = r := by
    rw [isRoot_iff, ← hraddress]
    exact ⟨List.inj_on_of_nodup_map hdistinct hp hr, congrArg Project.address⟩
  refine ⟨r, hr, hroot, fun p hp => ⟨?_, fun hne => ⟨?_, fun q => ?_⟩, ?_⟩⟩
  · rw [parentOf_eq_none_iff hmem hone, hroot p hp]
  · have hother : ¬ p.isRoot = true := mt (hroot p hp).mp hne
    rw [parentOf, if_neg hother]
    exact w.nearest?_eq_find? _
  · have hother : p.isRoot = false := Bool.eq_false_iff.mpr (mt (hroot p hp).mp hne)
    obtain ⟨q', hq', hclosest, -⟩ := exists_closest hmem hone hother
    rw [hq', Option.some_inj]
    exact ⟨fun heq => heq ▸ hclosest, fun h => hclosest.unique h hdistinct⟩
  · obtain ⟨n, r', hr', hr'root, hrun⟩ := exists_iterate_parentOf hmem hone hp
    exact ⟨n, (hroot r' hr').mp hr'root ▸ hrun⟩

/-- A workspace directory with nothing in it. -/
def bareSession : Session := ⟨⟨[(["w"], .directory)], []⟩, [], ⟨.root, []⟩, Stamp.epoch⟩

def bareWith (ps : List Project) (d : Option Discovery) (configured : Bool) : Workspace :=
  ⟨⟨.root, ["w"]⟩, .standard, .opened none, ps, d, configured⟩

def bareRoot : Project :=
  { address := "", directory := ⟨.root, ["w"]⟩, descriptor := { name := ":" }, artifactId := "w" }

/-! Three modules below the workspace directory: nothing is registered right above the first one,
and there is an empty name in the address of the third one. -/

def gapDeep : Project :=
  { address := "a:b:c", directory := ⟨.root, ["w", "a", "b", "c"]⟩, descriptor := { name := ":a:b:c" } }

def gapTop : Project :=
  { address := "a", directory := ⟨.root, ["w", "a"]⟩, descriptor := { name := ":a" } }

def gapEmpty : Project :=
  { address := "a::d", directory := ⟨.root, ["w", "a", "d"]⟩, descriptor := { name := ":a::d" } }

theorem afterRegistration_bare : ∃ d, (bareWith [] none false).afterRegistration bareSession =
    bareWith [{ bareRoot with artifactId := "" }] d false := by
  have hregister : ((bareWith [] none false).register Address.root
      (some (bareWith [] none false).root)).1 =
        bareWith [{ bareRoot with artifactId := "" }] none false := by
    cbv
  have hvisits : (WalkRules.ofSettings .standard).visits (bareSession.files.tree ⟨.root, ["w"]⟩) =
      [⟨[], .ok []⟩] := by
    cbv
  have hfinds : (WalkRules.ofSettings .standard).finds ⟨[], .ok []⟩ = false := by cbv
  have hmodules :
      (found (bareWith [{ bareRoot with artifactId := "" }] none false) bareSession).modules = [] := by
    change (WalkRules.ofSettings .standard).modulesOf (bareSession.files.tree ⟨.root, ["w"]⟩) []
      ((WalkRules.ofSettings .standard).visits (bareSession.files.tree ⟨.root, ["w"]⟩)) = _
    rw [hvisits]
    simp [WalkRules.modulesOf, hfinds]
  rw [afterRegistration, hregister, hmodules]
  exact ⟨_, rfl⟩

theorem configure_bare : ∃ d S, exec configure (bareWith [] none false, bareSession) =
    (.ok (), (bareWith [bareRoot] d true, S)) := by
  obtain ⟨log, hexec⟩ := exec_configure (w := bareWith [] none false) rfl bareSession
  obtain ⟨d, hregistered⟩ := afterRegistration_bare
  rw [hexec, hregistered]
  exact ⟨d, { bareSession with log := (log ++ []) ++ [] }, by cbv⟩

theorem reached_gaps : ∃ d, (bareWith [bareRoot, gapDeep, gapTop, gapEmpty] d true).Reached := by
  have hcreate : exec (create ⟨.root, ["w"]⟩ (some .standard) true) bareSession =
      (.ok (bareWith [] none false), bareSession) := by
    cbv
  obtain ⟨d, S, hconfigure⟩ := configure_bare
  have hdeep : ((bareWith [bareRoot] d true).register "a:b:c" none).1 =
      bareWith [bareRoot, gapDeep] d true := by
    cbv
  have htop : ((bareWith [bareRoot, gapDeep] d true).register "a" none).1 =
      bareWith [bareRoot, gapDeep, gapTop] d true := by
    cbv
  have hempty : ((bareWith [bareRoot, gapDeep, gapTop] d true).register "a::d" none).1 =
      bareWith [bareRoot, gapDeep, gapTop, gapEmpty] d true := by
    cbv
  have hconfigured := (Reached.created hcreate).configured hconfigure
  exact ⟨d, hempty ▸ (htop ▸ (hdeep ▸ hconfigured.registered _ _).registered _ _).registered _ _⟩

/-- The modules with a gap and with an empty name are right below the same one. -/
theorem closest_gaps (d : Option Discovery) :
    let w := bareWith [bareRoot, gapDeep, gapTop, gapEmpty] d true
    w.Closest gapTop bareRoot ∧ w.Closest gapDeep gapTop ∧ w.Closest gapEmpty gapTop := by
  have hlongest : ∀ q' ∈ [bareRoot, gapDeep, gapTop, gapEmpty], q'.isRoot = false →
      (Address.Above ":" q'.address "a" → q'.address.length ≤ 0) ∧
      (Address.Above ":" q'.address "a:b:c" → q'.address.length ≤ 1) ∧
      (Address.Above ":" q'.address "a::d" → q'.address.length ≤ 1) := by
    decide
  have hdeep : Address.Above ":" "a" "a:b:c" := by decide
  have hempty : Address.Above ":" "a" "a::d" := by decide
  exact ⟨⟨by simp [bareWith], by decide, .inl rfl, fun q' hq' hnot => (hlongest q' hq' hnot).1⟩,
    ⟨by simp [bareWith], by decide, .inr hdeep, fun q' hq' hnot => (hlongest q' hq' hnot).2.1⟩,
    ⟨by simp [bareWith], by decide, .inr hempty, fun q' hq' hnot => (hlongest q' hq' hnot).2.2⟩⟩

theorem parentOf_tree_gaps : ∃ w : Workspace,
    w.Reached ∧ w.configured = true ∧ w.settings.separator.val.length = 1 ∧
      w.projects = [bareRoot, gapDeep, gapTop, gapEmpty] ∧
      w.parentOf bareRoot = none ∧ w.parentOf gapTop = some bareRoot ∧
      w.parentOf gapDeep = some gapTop ∧ w.parentOf gapEmpty = some gapTop ∧
      ∀ p ∈ w.projects, ∃ n, (·.bind w.parentOf)^[n] (some p) = some bareRoot := by
  obtain ⟨d, hreached⟩ := reached_gaps
  have hone : Settings.standard.separator.val.length = 1 := by decide
  obtain ⟨r, -, hroot, htree⟩ := parentOf_tree hreached rfl hone
  obtain rfl : bareRoot = r := (hroot bareRoot (by simp [bareWith])).mp rfl
  obtain ⟨htop, hdeep, hempty⟩ := closest_gaps d
  refine ⟨_, hreached, rfl, hone, rfl, ?_, ?_, ?_, ?_, fun p hp => (htree p hp).2.2⟩
  · exact (htree bareRoot (by simp [bareWith])).1.mpr rfl
  · exact (((htree gapTop (by simp [bareWith])).2.1 (by decide)).2 bareRoot).mpr htop
  · exact (((htree gapDeep (by simp [bareWith])).2.1 (by decide)).2 gapTop).mpr hdeep
  · exact (((htree gapEmpty (by simp [bareWith])).2.1 (by decide)).2 gapTop).mpr hempty

end Workspace

end ModulePins
