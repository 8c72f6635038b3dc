import Mathlib.Logic.Relation
import ModulePins.Proofs.Inheritance.Matching
import ModulePins.Proofs.ModuleFile.Outcome
import ModulePins.Proofs.ModuleFile.Replay
import ModulePins.Proofs.Workspace.Rendering
import ModulePins.Proofs.Workspace.SetUp

/-!
# What a document depends on

The document of a module depends on its own module file, on the module files of the modules that it
inherits from, directly or through others, and on what the module file of the workspace directory
lends to all of them. Whatever else is registered, in which order, and what is declared there, has no
influence.

Two workspaces are compared in which the same modules lie in the same directories. Links are
positions, and these may differ, so the modules that are reached are paired by their addresses. The
pairs have the same declarations, and pairs as parents, and then resolution cannot tell them apart
(`Registry.Matches`).

## Main definitions

* `Workspace.Reaches` — the modules that a module inherits from
* `Workspace.Paired` — positions of a reached module in two workspaces

## Main results

* `Workspace.matches_paired` — what is reached matches
* `Workspace.render_eq_of_agree` — documents depend on what is reached
-/

namespace ModulePins

namespace Workspace

open ModulePins.Task Relation
open List (Forall₂)

variable {w w' v v' : Workspace} {S S' T T' : Session} {files files' : FileStore} {p q : Project}
  {a b : String} {i j : ℕ}

/-! ### What is reached -/

/-- The module file at one address refers to the other one. -/
def Inherits (w : Workspace) (files : FileStore) (a b : String) : Prop :=
  ∃ file, w.moduleAt files a = some file ∧ ∃ r ∈ file.references, w.normalize r = b

/-- A chain of references leads from one address to the other. -/
def Reaches (w : Workspace) (files : FileStore) : String → String → Prop :=
  ReflTransGen (w.Inherits files)

/-- Two workspaces with the same modules in the same directories, in which the module files that can
be reached from an address are the same, and so is what the root lends. -/
structure AgreeFrom (a : String) (v v' : Workspace) (files files' : FileStore) : Prop where
  setUp : v.SetUp files
  setUp' : v'.SetUp files'
  settings : v'.settings = v.settings
  sites : ∀ site, site ∈ v'.sites ↔ site ∈ v.sites
  group : (v'.rootFile files').bind ModuleFile.group = (v.rootFile files).bind ModuleFile.group
  version : (v'.rootFile files').bind ModuleFile.version = (v.rootFile files).bind ModuleFile.version
  modules : ∀ b, v.Reaches files a b → v'.moduleAt files' b = v.moduleAt files b

/-! ### Positions -/

theorem exists_of_position? (h : w.position? a = some i) :
    ∃ p, w.projects[i]? = some p ∧ p.address = a := by
  obtain ⟨hi, haddress, -⟩ := List.findIdx?_eq_some_iff_getElem.mp h
  exact ⟨_, List.getElem?_eq_getElem hi, by simpa using haddress⟩

theorem position?_of_find? (hconsistent : w.Consistent) (h : w.find? a = some p) :
    ∃ i, w.position? a = some i ∧ w.projects[i]? = some p := by
  obtain ⟨i, hi, hget⟩ := List.getElem_of_mem (List.mem_of_find?_eq_some h)
  have haddress : p.address = a := address_of_find? h
  have hp : w.projects[i]? = some p := List.getElem?_eq_some_iff.mpr ⟨hi, hget⟩
  exact ⟨i, haddress ▸ hconsistent.position?_eq hp, hp⟩

theorem find?_of_position? (hconsistent : w.Consistent) (h : w.position? a = some i) :
    ∃ p, w.projects[i]? = some p ∧ w.find? a = some p := by
  obtain ⟨p, hp, rfl⟩ := exists_of_position? h
  exact ⟨p, hp, hconsistent.find?_eq (List.mem_of_getElem? hp)⟩

theorem position?_inj (h : w.position? a = some i) (h' : w.position? b = some i) : a = b := by
  obtain ⟨p, hp, rfl⟩ := exists_of_position? h
  obtain ⟨q, hq, rfl⟩ := exists_of_position? h'
  rw [hp] at hq
  rw [Option.some.inj hq]

theorem registry_get (hp : w.projects[i]? = some p) : w.registry.get i = p.descriptor := by
  rw [Registry.get, registry, List.getElem?_map, hp]
  rfl

/-- Modules that have been linked one by one have links that are related one by one. -/
theorem forall₂_targets {R : ℕ → ℕ → Prop} {rs : List String}
    (h : ∀ r ∈ rs, ∃ i j, w.target? r = some i ∧ w'.target? r = some j ∧ R i j) :
    Forall₂ R (w.targets rs) (w'.targets rs) := by
  induction rs with
  | nil => exact .nil
  | cons r rs ih =>
    obtain ⟨⟨i, j, hi, hj, hij⟩, hrest⟩ := List.forall_mem_cons.mp h
    have ih := ih hrest
    simp only [targets] at ih ⊢
    simpa [hi, hj] using ⟨hij, ih⟩

/-! ### Pairs -/

/-- Defaults with the same group and version lend the same. -/
theorem given_congr {path : Path} {defaults defaults' : Option ModuleFile}
    (hgroup : defaults'.bind ModuleFile.group = defaults.bind ModuleFile.group)
    (hversion : defaults'.bind ModuleFile.version = defaults.bind ModuleFile.version)
    (p : Project) (o : Option ModuleFile) : p.given path defaults' o = p.given path defaults o := by
  have hlent (field : ModuleFile → Option String) (d : Option ModuleFile) :
      (d.bind fun m => Project.said (field m)) = Project.said (d.bind field) := by
    cases d <;> rfl
  cases o with
  | none => rfl
  | some file =>
    simp only [Project.given, Project.loaded, Project.identified, hlent, hgroup, hversion]

/-- What a module file makes of a module that has just been registered. -/
theorem given_blank (w : Workspace) (a : String) (d path : Path) (defaults o : Option ModuleFile) :
    let g := (w.blank a d).given path defaults o
    g.address = a ∧ g.descriptor.name = w.label a ∧ g.descriptor.parents = [] ∧
      g.references = (o.map ModuleFile.references).getD [] := by
  cases o with
  | none => exact ⟨rfl, rfl, rfl, rfl⟩
  | some file =>
    have hlinks := ModuleFile.apply_sameLinks file (w.blank a d).descriptor
    exact ⟨rfl, hlinks.name, hlinks.parents, rfl⟩

variable (h : AgreeFrom a v v' files files')

include h

/-- A module that is registered in the one workspace is registered in the other, and a module that
is reached says the same in both: before linking the two are equal. -/
theorem AgreeFrom.pair (hb : v.Reaches files a b) (hp : v.find? b = some p) :
    ∃ g q, v'.find? b = some q ∧ p = v.linked g ∧ q = v'.linked g ∧ g.descriptor.name = v.label b ∧
      g.descriptor.parents = [] ∧
      g.references = ((v.moduleAt files b).map ModuleFile.references).getD [] := by
  have hmem := List.mem_of_find?_eq_some hp
  have haddress : p.address = b := address_of_find? hp
  obtain ⟨q, hqmem, hqaddress, hqdirectory⟩ := mem_sites_iff.mp
    ((h.sites (p.address, p.directory)).mpr (mem_sites_iff.mpr ⟨p, hmem, rfl, rfl⟩))
  have hq : v'.find? b = some q := by
    rw [← haddress, ← show q.address = p.address from hqaddress]
    exact h.setUp'.consistent.find?_eq hqmem
  have hfile : v.moduleAt files b = v.fileOf files p := by rw [moduleAt, hp, Option.bind_some]
  have hfile' : v'.fileOf files' q = v.fileOf files p := by
    have hsame := h.modules b hb
    rw [moduleAt, moduleAt, hp, hq, Option.bind_some, Option.bind_some] at hsame
    exact hsame
  have hpath : v'.filePath q = v.filePath p := by
    rw [filePath, filePath, hqdirectory, h.settings]
  have hblank : v'.blank q.address q.directory = v.blank p.address p.directory := by
    rw [blank, blank, label, label, hqaddress, hqdirectory, h.settings]
  obtain ⟨-, hname, hparents, hreferences⟩ := given_blank v p.address p.directory (v.filePath p)
    (v.rootFile files) (v.fileOf files p)
  refine ⟨_, q, hq, h.setUp.made p hmem, ?_, haddress ▸ hname, hparents, hfile ▸ hreferences⟩
  rw [h.setUp'.made q hqmem, hblank, hpath, hfile', given_congr h.group h.version]

/-- A module that is reached, at its positions in the two workspaces. -/
def Paired (v v' : Workspace) (files : FileStore) (a : String) (i j : ℕ) : Prop :=
  ∃ b, v.Reaches files a b ∧ v.position? b = some i ∧ v'.position? b = some j

/-- The links of a module that is reached lead to pairs. -/
theorem AgreeFrom.targets {g : Project} (hb : v.Reaches files a b) (hp : v.find? b = some (v.linked g))
    (hreferences : g.references = ((v.moduleAt files b).map ModuleFile.references).getD []) :
    Forall₂ (Paired v v' files a) (v.targets g.references) (v'.targets g.references) := by
  refine forall₂_targets fun r hr => ?_
  have hmem : v.normalize r ∈ v.addresses :=
    h.setUp.refer _ (List.mem_of_find?_eq_some hp) r hr
  have hreach : v.Reaches files a (v.normalize r) := by
    rw [hreferences] at hr
    cases hfile : v.moduleAt files b with
    | none =>
      rw [hfile] at hr
      cases hr
    | some file =>
      rw [hfile] at hr
      exact hb.tail ⟨file, hfile, r, hr, rfl⟩
  obtain ⟨target, htarget, haddress⟩ := List.mem_map.mp hmem
  have hfind : v.find? (v.normalize r) = some target :=
    haddress ▸ h.setUp.consistent.find?_eq htarget
  obtain ⟨-, target', hfind', -⟩ := h.pair hreach hfind
  obtain ⟨i, hi, -⟩ := position?_of_find? h.setUp.consistent hfind
  obtain ⟨j, hj, -⟩ := position?_of_find? h.setUp'.consistent hfind'
  have hnormal : v'.normalize r = v.normalize r := by rw [normalize, normalize, h.settings]
  exact ⟨i, j, hi, by rw [target?, hnormal, hj], v.normalize r, hreach, hi, hj⟩

/-- The descriptors of a pair are the same before linking. -/
theorem AgreeFrom.descriptors (hij : Paired v v' files a i j) :
    ∃ b g, v.find? b = some (v.linked g) ∧ v.registry.get i = (v.linked g).descriptor ∧
      v'.registry.get j = (v'.linked g).descriptor ∧ g.descriptor.name = v.label b ∧
      Forall₂ (Paired v v' files a) (v.registry.get i).parents (v'.registry.get j).parents := by
  obtain ⟨b, hb, hi, hj⟩ := hij
  obtain ⟨p, hp, hfind⟩ := find?_of_position? h.setUp.consistent hi
  obtain ⟨g, q, hfind', rfl, rfl, hname, hparents, hreferences⟩ := h.pair hb hfind
  obtain ⟨q', hq', hfind''⟩ := find?_of_position? h.setUp'.consistent hj
  obtain rfl : q' = v'.linked g := Option.some.inj (hfind''.symm.trans hfind')
  have htargets := h.targets hb hfind hreferences
  refine ⟨b, g, hfind, registry_get hp, registry_get hq', hname, ?_⟩
  rw [registry_get hp, registry_get hq']
  simpa [linked, Project.refer, hparents] using htargets

/-- **What is reached matches.** -/
theorem AgreeFrom.matches : Registry.Matches (Paired v v' files a) v.registry v'.registry where
  unique := by
    constructor
    · rintro i j k ⟨b, -, hi, hk⟩ ⟨c, -, hj, hk'⟩
      obtain rfl := position?_inj hk hk'
      exact Option.some.inj (hi.symm.trans hj)
    · rintro k i j ⟨b, -, hk, hi⟩ ⟨c, -, hk', hj⟩
      obtain rfl := position?_inj hk hk'
      exact Option.some.inj (hi.symm.trans hj)
  registered := by
    rintro i j ⟨b, -, hi, hj⟩
    obtain ⟨p, hp, -⟩ := exists_of_position? hi
    obtain ⟨q, hq, -⟩ := exists_of_position? hj
    simp only [registry, List.length_map]
    exact ⟨(List.getElem?_eq_some_iff.mp hp).1, (List.getElem?_eq_some_iff.mp hq).1⟩
  label := by
    intro i j hij
    obtain ⟨b, g, -, hi, hj, hname, -⟩ := h.descriptors hij
    have hlabel : g.descriptor.name ≠ "" := by
      rw [hname, label, Address.label]
      exact fun hempty => v.settings.separator.property (String.append_eq_empty_iff.mp hempty).1
    simp only [Registry.label, hi, hj, linked, Project.refer, ne_eq, hlabel, not_false_eq_true, if_true]
  outputs := by
    intro i j hij
    obtain ⟨b, g, -, hi, hj, -⟩ := h.descriptors hij
    simp [hi, hj, linked]
  inputs := by
    intro i j hij
    obtain ⟨b, g, -, hi, hj, -⟩ := h.descriptors hij
    simp [hi, hj, linked]
  parents := by
    intro i j hij
    obtain ⟨b, g, -, -, -, -, hparents⟩ := h.descriptors hij
    exact hparents

/-! ### Documents -/

/-- **Rendering** answers the same. -/
theorem AgreeFrom.rendering {address : String} (ha : v.normalize address = a) :
    (v'.rendering address).1 = (v.rendering address).1 := by
  have hnormal : v'.normalize address = a := by
    rw [← ha, normalize, normalize, h.settings]
  have hready (u : Workspace) (hu : u.configured = true) : u.requireConfigured = .ok () := if_pos hu
  rw [Workspace.rendering, Workspace.rendering, hready v h.setUp.configured,
    hready v' h.setUp'.configured, Workspace.get, Workspace.get, ha, hnormal]
  cases hp : v.find? a with
  | none =>
    have hnot : v'.find? a = none := by
      rw [find?_eq_none_iff] at hp ⊢
      rw [← map_fst_sites] at hp ⊢
      intro hmem
      obtain ⟨site, hsite, haddress⟩ := List.mem_map.mp hmem
      exact hp (List.mem_map.mpr ⟨site, (h.sites site).mp hsite, haddress⟩)
    rw [hnot]
  | some p =>
    obtain ⟨g, q, hq, rfl, rfl, -⟩ := h.pair .refl hp
    have haddress : (v.linked g).address = a := address_of_find? hp
    rw [linked, Project.address_refer] at haddress
    obtain ⟨i, hi, -⟩ := position?_of_find? h.setUp.consistent hp
    obtain ⟨j, hj, -⟩ := position?_of_find? h.setUp'.consistent hq
    have hsame := h.matches.outcome_resolve (i := i) (j := j) ⟨a, .refl, hi, hj⟩
    have hdocument : v'.documentOf (v'.linked g) = v.documentOf (v.linked g) := by
      funext pins
      simp [documentOf, linked, h.settings]
    rw [hq]
    simp only [renderingOf, hdocument, Descriptor.enabled]
    simp only [linked, Project.address_refer, Project.descriptor_refer, haddress, hi, hj,
      Option.getD_some, hsame]
    split <;> rfl

omit h

/-- **The document of a module depends only on what it inherits.** Two workspaces with the same
settings are configured, in which the same modules lie in the same directories. If the module file of
the workspace directory lends the same group and version, and the module files of a module and of all
those that it reaches are the same, then rendering it answers the same in both, masked or not, be it
the text, a cycle or another fault. So if one module file other than that of the workspace directory
is edited, this can only be seen in the documents of that module and of those that reach it. -/
theorem render_eq_of_agree (hw : w.Prepared) (hw' : w'.Prepared)
    (hdone : exec configure (w, S) = (.ok (), (v, T)))
    (hdone' : exec configure (w', S') = (.ok (), (v', T')))
    (hsettings : v'.settings = v.settings) (hsites : ∀ site, site ∈ v'.sites ↔ site ∈ v.sites) :
    (∀ address,
      (v'.rootFile T'.files).bind ModuleFile.group = (v.rootFile T.files).bind ModuleFile.group →
      (v'.rootFile T'.files).bind ModuleFile.version = (v.rootFile T.files).bind ModuleFile.version →
      (∀ b, v.Reaches T.files (v.normalize address) b →
        v'.moduleAt T'.files b = v.moduleAt T.files b) →
      ∀ masked X X', (exec (render address masked) (v', X')).1 =
        (exec (render address masked) (v, X)).1) ∧
    ∀ edited ≠ Address.root,
      (∀ b ≠ edited, v'.moduleAt T'.files b = v.moduleAt T.files b) →
      ∀ address, ¬ v.Reaches T.files (v.normalize address) edited →
      ∀ masked X X', (exec (render address masked) (v', X')).1 =
        (exec (render address masked) (v, X)).1 := by
  have hagree (address : String)
      (hgroup : (v'.rootFile T'.files).bind ModuleFile.group =
        (v.rootFile T.files).bind ModuleFile.group)
      (hversion : (v'.rootFile T'.files).bind ModuleFile.version =
        (v.rootFile T.files).bind ModuleFile.version)
      (hmodules : ∀ b, v.Reaches T.files (v.normalize address) b →
        v'.moduleAt T'.files b = v.moduleAt T.files b) (masked : Bool) (X X' : Session) :
      (exec (render address masked) (v', X')).1 = (exec (render address masked) (v, X)).1 := by
    have h : AgreeFrom (v.normalize address) v v' T.files T'.files :=
      ⟨hw.fresh.setUp hdone, hw'.fresh.setUp hdone', hsettings, hsites, hgroup, hversion, hmodules⟩
    rw [exec_render_eq, exec_render_eq, h.rendering rfl]
  refine ⟨hagree, fun edited hroot hothers address hreaches => ?_⟩
  have hrootFile : v'.rootFile T'.files = v.rootFile T.files := hothers _ hroot.symm
  refine hagree address (by rw [hrootFile]) (by rw [hrootFile]) fun b hb => hothers b ?_
  rintro rfl
  exact hreaches hb

/-! ### An edit that is not seen

Of three modules the first one inherits from the second one, and the file of the third one is
edited. -/

def trio (bytes : ByteArray) : FileStore where
  nodes :=
    [(["w"], .directory), (["a"], .directory),
      (["a", "water.yaml"],
        .file "waterDescriptor:\n  moduleId: m\n  inheritsFrom:\n  - b\n".toUTF8),
      (["b"], .directory), (["b", "water.yaml"], .file ByteArray.empty), (["c"], .directory),
      (["c", "water.yaml"], .file bytes)]
  current := []

def trioSession (bytes : ByteArray) : Session := ⟨trio bytes, [], ⟨.root, []⟩, Stamp.epoch⟩

def trioWith (ps : List Project) (d : Option Discovery) : Workspace :=
  ⟨⟨.root, ["w"]⟩, .standard, .opened none, ps, d, false⟩

/-- A module that has been registered under a name. -/
def trioModule (name : String) : Project :=
  { address := name, directory := ⟨.root, [name]⟩, descriptor := { name := ":" ++ name } }

/-- The three modules. -/
def trioProjects : List Project := [trioModule "a", trioModule "b", trioModule "c"]

def trioRoot : Project :=
  { address := "", directory := ⟨.root, ["w"]⟩, descriptor := { name := ":" } }

/-- The workspace when all modules have been registered. -/
def trioAll (d : Option Discovery) : Workspace := trioWith (trioProjects ++ [trioRoot]) d

def trioFile : ModuleFile := ⟨none, none, none, some ⟨some "m", none, none, ["b"], [], [], []⟩⟩

def trioText : String := "waterDescriptor:\n  moduleId: m\n  inheritsFrom:\n  - b\n"

def trioMembers : Schema.Members :=
  [(.str "waterDescriptor",
    .mapping [(.str "moduleId", .str "m"), (.str "inheritsFrom", .list [.str "b"])])]

theorem read_trio : Yaml.read trioText.toList = .ok (.mapping trioMembers) := by
  have hreadable : trioText.toList.all Yaml.isReadable = true := by cbv
  have htokens : Yaml.tokens trioText.toList =
      [.blockMappingStart, .key, .scalar "waterDescriptor" true, .value, .blockMappingStart, .key,
        .scalar "moduleId" true, .value, .scalar "m" true, .key, .scalar "inheritsFrom" true, .value,
        .blockEntry, .scalar "b" true, .blockEnd, .blockEnd] := by cbv
  rw [Yaml.read, Yaml.node?, hreadable, htokens]
  cbv

theorem contents_trio (bytes : ByteArray) :
    ModuleFile.contents (trio bytes) ⟨.root, ["a", "water.yaml"]⟩ = .ok trioFile ∧
      ModuleFile.contents (trio bytes) ⟨.root, ["b", "water.yaml"]⟩ =
        .ok ⟨none, none, none, none⟩ ∧
      (trio bytes).isFile? ⟨.root, ["w", "water.yaml"]⟩ = .ok false := by
  have hbytes : (trio bytes).readBytes ⟨.root, ["a", "water.yaml"]⟩ = .ok trioText.toUTF8 := by cbv
  refine ⟨ModuleFile.contents_of_text hbytes (by cbv) read_trio (by cbv), ?_, ?_⟩ <;> cbv

theorem contents_edited :
    ModuleFile.contents (trio ByteArray.empty) ⟨.root, ["c", "water.yaml"]⟩ =
        .ok ⟨none, none, none, none⟩ ∧
      ModuleFile.contents (trio "name: n".toUTF8) ⟨.root, ["c", "water.yaml"]⟩ =
        .ok ⟨none, some "n", none, none⟩ := by
  have hbytes : (trio "name: n".toUTF8).readBytes ⟨.root, ["c", "water.yaml"]⟩ =
      .ok "name: n".toUTF8 := by cbv
  have hread : Yaml.read "name: n".toList = .ok (.mapping [(.str "name", .str "n")]) := by cbv
  exact ⟨by cbv, ModuleFile.contents_of_text hbytes (by cbv) hread (by cbv)⟩

theorem exec_create_trio :
    exec (create ⟨.root, ["w"]⟩ (some .standard) true) (trioSession ByteArray.empty) =
      (.ok (trioWith [] none), trioSession ByteArray.empty) := by
  cbv

theorem register_trio : ((((trioWith [] none).register "a" (some ⟨.root, ["a"]⟩)).1.register
    "b" (some ⟨.root, ["b"]⟩)).1.register "c" (some ⟨.root, ["c"]⟩)).1 =
      trioWith trioProjects none := by
  cbv

theorem prepared_trio : (trioWith trioProjects none).Prepared := by
  have hregistered := (((Prepared.created exec_create_trio).registered "a" (some ⟨.root, ["a"]⟩)).registered
    "b" (some ⟨.root, ["b"]⟩)).registered "c" (some ⟨.root, ["c"]⟩)
  rwa [register_trio] at hregistered

theorem afterRegistration_trio (bytes : ByteArray) : ∃ d,
    (trioWith trioProjects none).afterRegistration (trioSession bytes) =
      trioAll d := by
  have hroot : ((trioWith trioProjects none).register Address.root
      (some (trioWith trioProjects none).root)).1 = trioAll none := by
    cbv
  have hfound : (found (trioAll none) (trioSession bytes)).modules =
      [] := by cbv
  rw [afterRegistration, hroot, hfound]
  exact ⟨_, rfl⟩

theorem filePath_trio (d : Option Discovery) :
    (trioAll d).filePath (trioModule "a") = ⟨.root, ["a", "water.yaml"]⟩ ∧
      (trioAll d).filePath (trioModule "b") = ⟨.root, ["b", "water.yaml"]⟩ ∧
      (trioAll d).filePath (trioModule "c") = ⟨.root, ["c", "water.yaml"]⟩ ∧
      (trioAll d).filePath trioRoot = ⟨.root, ["w", "water.yaml"]⟩ := by
  refine ⟨?_, ?_, ?_, ?_⟩ <;> cbv

theorem normalize_trio (d : Option Discovery) (bytes : ByteArray) :
    ((trioAll d).whole (trio bytes)).normalize "a" = "a" ∧
      ((trioAll d).whole (trio bytes)).normalize "b" = "b" := by
  change Address.normalize ":" "a" = "a" ∧ Address.normalize ":" "b" = "b"
  constructor <;> cbv

theorem find?_trio (d : Option Discovery) (a : String) : (trioAll d).find? a =
    if "a" = a then some (trioModule "a") else if "b" = a then some (trioModule "b")
    else if "c" = a then some (trioModule "c") else if "" = a then some trioRoot else none := by
  change List.find? _ [trioModule "a", trioModule "b", trioModule "c", trioRoot] = _
  simp only [List.find?_cons, List.find?_nil, trioModule, trioRoot]
  grind

/-- The module files, of which only the third one depends on the edit. -/
theorem moduleAt_trio {bytes : ByteArray} {file : ModuleFile} (d : Option Discovery)
    (hedited : ModuleFile.contents (trio bytes) ⟨.root, ["c", "water.yaml"]⟩ = .ok file)
    (a : String) : (trioAll d).moduleAt (trio bytes) a =
      if "a" = a then some trioFile else if "b" = a then some ⟨none, none, none, none⟩
      else if "c" = a then some file else none := by
  obtain ⟨ha, hb, hroot⟩ := contents_trio bytes
  obtain ⟨hpa, hpb, hpc, hpr⟩ := filePath_trio d
  have hnone : ModuleFile.at? (trio bytes) ⟨.root, ["w", "water.yaml"]⟩ = none := by
    rw [ModuleFile.at?, ModuleFile.contents, hroot]
    rfl
  rw [moduleAt, find?_trio]
  split_ifs <;> simp only [Option.bind_some, Option.bind_none, fileOf, hpa, hpb, hpc, hpr, hnone] <;>
    simp [ModuleFile.at?, ha, hb, hedited, Except.toOption]

theorem legible_trio {bytes : ByteArray} {name : Option String} (d : Option Discovery)
    (hedited : ModuleFile.contents (trio bytes) ⟨.root, ["c", "water.yaml"]⟩ =
      .ok ⟨none, name, none, none⟩) : (trioAll d).Legible (trio bytes) := by
  obtain ⟨ha, hb, hroot⟩ := contents_trio bytes
  obtain ⟨hpa, hpb, hpc, hpr⟩ := filePath_trio d
  have hread : ∀ p ∈ (trioAll d).projects, ∃ o,
      (p.reading ((trioAll d).filePath p) (trio bytes) none).answer = .ok o ∧
        ∀ path defaults, ∀ r ∈ (p.given path defaults o).references, r = "b" := by
    change ∀ p ∈ [trioModule "a", trioModule "b", trioModule "c", trioRoot], _
    simp only [List.forall_mem_cons, hpa, hpb, hpc, hpr]
    refine ⟨⟨_, Project.answer_of_contents ha (by cbv), ?_⟩,
      ⟨_, Project.answer_of_contents hb (by cbv), ?_⟩,
      ⟨_, Project.answer_of_contents hedited (by cbv), ?_⟩,
      ⟨_, Project.answer_of_missing hroot, ?_⟩, by simp⟩ <;>
    simp [Project.given, Project.loaded, Project.unnamed, trioFile, trioModule, trioRoot,
      ModuleFile.references]
  refine ⟨fun p hp => ?_, fun p hp r hr => ?_⟩
  · obtain ⟨o, ho, -⟩ := hread p hp
    exact answer_eq_fileOf ho
  · obtain ⟨o, ho, hb⟩ := hread p hp
    have hfile : (trioAll d).fileOf (trio bytes) p = o := (Project.reading_of_answer ho).1.symm
    rw [readProject_eq (answer_eq_fileOf ho), hfile] at hr
    have hnormal : (trioAll d).normalize "b" = "b" := (normalize_trio d bytes).2
    have haddresses : (trioAll d).addresses = ["a", "b", "c", ""] := rfl
    rw [hb _ _ r hr, hnormal, haddresses]
    simp

theorem configure_trio {bytes : ByteArray} {name : Option String}
    (hedited : ModuleFile.contents (trio bytes) ⟨.root, ["c", "water.yaml"]⟩ =
      .ok ⟨none, name, none, none⟩) : ∃ d log,
    exec configure (trioWith trioProjects none, trioSession bytes) =
      (.ok (), ((trioAll d).whole (trio bytes), { trioSession bytes with log })) := by
  obtain ⟨d, hregistered⟩ := afterRegistration_trio bytes
  obtain ⟨log, hdone⟩ := exec_configure_of_legible (S := trioSession bytes)
    prepared_trio.fresh.consistent rfl (hregistered ▸ legible_trio d hedited)
  exact ⟨d, log, hregistered ▸ hdone⟩

theorem reaches_trio {bytes : ByteArray} {file : ModuleFile} (d : Option Discovery)
    (hedited : ModuleFile.contents (trio bytes) ⟨.root, ["c", "water.yaml"]⟩ = .ok file) {b : String}
    (h : ((trioAll d).whole (trio bytes)).Reaches (trio bytes) "a" b) : b = "a" ∨ b = "b" := by
  induction h with
  | refl => exact .inl rfl
  | tail _ hlast ih =>
    obtain ⟨m, hm, r, hr, rfl⟩ := hlast
    rw [moduleAt_whole, moduleAt_trio d hedited] at hm
    rcases ih with rfl | rfl
    · obtain rfl : trioFile = m := by simpa using hm
      obtain rfl : r = "b" := by simpa [trioFile, ModuleFile.references] using hr
      exact .inr (normalize_trio d bytes).2
    · obtain rfl : ⟨none, none, none, none⟩ = m := by simpa using hm
      cases hr

/-- Where the file of the third module is edited, the document of the first one stays the same. -/
theorem render_eq_of_agree_trio : ∃ w w' S S',
    exec configure (trioWith trioProjects none, trioSession ByteArray.empty) = (.ok (), (w, S)) ∧
      exec configure (trioWith trioProjects none, trioSession "name: n".toUTF8) =
        (.ok (), (w', S')) ∧
      w'.moduleAt S'.files "c" ≠ w.moduleAt S.files "c" ∧
      ∀ masked, (exec (render "a" masked) (w', S')).1 = (exec (render "a" masked) (w, S)).1 := by
  obtain ⟨hbefore, hafter⟩ := contents_edited
  obtain ⟨d, log, hdone⟩ := configure_trio hbefore
  obtain ⟨d', log', hdone'⟩ := configure_trio hafter
  have hmodules (b : String) := moduleAt_trio d hbefore b
  have hmodules' (b : String) := moduleAt_trio d' hafter b
  have hsame : ∀ b ≠ "c",
      ((trioAll d').whole (trio "name: n".toUTF8)).moduleAt (trio "name: n".toUTF8) b =
        ((trioAll d).whole (trio ByteArray.empty)).moduleAt (trio ByteArray.empty) b := by
    intro b hb
    rw [moduleAt_whole, moduleAt_whole, hmodules, hmodules', if_neg hb.symm, if_neg hb.symm]
  have hreaches : ¬ ((trioAll d).whole (trio ByteArray.empty)).Reaches (trio ByteArray.empty)
      (((trioAll d).whole (trio ByteArray.empty)).normalize "a") "c" := by
    rw [(normalize_trio d _).1]
    intro h
    have hreached := reaches_trio d hbefore h
    simp at hreached
  have hrender := (render_eq_of_agree prepared_trio prepared_trio hdone hdone' rfl (fun site => by
    rw [sites_whole, sites_whole]; rfl)).2 "c" (by decide) hsame "a" hreaches
  refine ⟨_, _, _, _, hdone, hdone', ?_, fun masked => hrender masked _ _⟩
  change ((trioAll d').whole (trio "name: n".toUTF8)).moduleAt (trio "name: n".toUTF8) "c" ≠
    ((trioAll d).whole (trio ByteArray.empty)).moduleAt (trio ByteArray.empty) "c"
  rw [moduleAt_whole, moduleAt_whole, hmodules, hmodules']
  simp

end Workspace

end ModulePins
