import Mathlib.Data.List.Induction
import Mathlib.Data.List.Lex
import Mathlib.Data.List.Nodup
import Mathlib.Data.String.Basic
import Mathlib.Logic.Relation
import ModulePins.Discovery

/-!
# What a walk visits

A walk is a recursion over the tree that returns its visits as one list. Here that list is described
without the recursion: which directories are in it, by a condition on each step of the way to a
directory, and in which order they come, by comparing the lists of names.

The order needs a condition on the tree. If a directory listed one name twice, the walk would go
through what is below it twice. `DirectoryTree.Distinct` excludes this; the trees that the library
builds satisfy it.

## Main definitions

* `WalkRules.Descends` — one step of a walk
* `WalkRules.Visited` — the directories that it comes to
* `DirectoryTree.Distinct` — no name is listed twice

## Main results

* `WalkRules.visited_iff` — the way to a visited directory
* `WalkRules.mem_segments_visits`, `WalkRules.eq_visitAt` — the list holds these visits
* `WalkRules.pairwise_visits` — in lexicographic order
* `WalkRules.mem_modules_iff`, `WalkRules.pairwise_modules` — the modules, read off the list
* `WalkRules.mem_failures_iff`, `WalkRules.pairwise_failures` — the directories that it cannot list
* `WalkRules.concat_mem_leftOut_iff`, `WalkRules.nodup_leftOut` — the directories that it leaves out
* `WalkRules.walk_congr` — trees that look the same
-/

namespace ModulePins

/-- No directory lists a name twice. -/
def DirectoryTree.Distinct (t : DirectoryTree) : Prop :=
  ∀ segments entries, t.list segments = .ok entries → (entries.map TreeEntry.name).Nodup

namespace WalkRules

variable {r : WalkRules} {t : DirectoryTree} {s s' : Segments} {name : String} {e : TreeEntry}
  {entries : List TreeEntry} {v : Visit} {vs : List Visit} {seen : List String}

/-! ### Decisions -/

theorem excludes_concat (r : WalkRules) (s : Segments) (name : String) :
    r.excludes (s ++ [name]) = (r.excludes s || r.excludeDirs.contains name) := by
  simp [excludes]

theorem excludes_above (h : s <+: s') (hs' : r.excludes s' = false) : r.excludes s = false := by
  obtain ⟨rest, rfl⟩ := h
  rw [excludes, List.any_append, Bool.or_eq_false_iff] at hs'
  exact hs'.1

theorem decide_eq_descend_iff :
    r.decide s e = .descend ↔ e.isDir = true ∧ r.excludes (s ++ [e.name]) = false := by
  rw [decide]
  split <;> split <;> simp_all

theorem decide_eq_skipSubtree_iff :
    r.decide s e = .skipSubtree ↔ e.isDir = true ∧ r.excludes (s ++ [e.name]) = true := by
  rw [decide]
  split <;> split <;> simp_all

theorem decide_eq_recordModule_iff :
    r.decide s e = .recordModule ↔ e.isDir = false ∧ e.name = r.moduleFile ∧ s ≠ [] := by
  rw [decide]
  split <;> split <;> simp_all

theorem mem_chosen_iff {d : VisitDecision} :
    name ∈ r.chosen d s entries ↔ ∃ e ∈ entries, r.decide s e = d ∧ e.name = name := by
  simp [chosen, and_assoc]

/-! ### Steps -/

/-- The walk goes from a directory that can be listed to one below it. -/
def Descends (r : WalkRules) (t : DirectoryTree) (s s' : Segments) : Prop :=
  ∃ entries name, t.list s = .ok entries ∧ ⟨name, true⟩ ∈ entries ∧
    r.excludes (s ++ [name]) = false ∧ s' = s ++ [name]

/-- The walk comes to the directory. -/
def Visited (r : WalkRules) (t : DirectoryTree) (s : Segments) : Prop :=
  Relation.ReflTransGen (r.Descends t) [] s

/-- **The way to a visited directory.** No name on it is excluded, and each directory above can be
listed and holds the next one. -/
theorem visited_iff :
    r.Visited t s ↔ r.excludes s = false ∧
      ∀ above name, above ++ [name] <+: s →
        ∃ entries, t.list above = .ok entries ∧ ⟨name, true⟩ ∈ entries := by
  induction s using List.reverseRecOn with
  | nil =>
    refine iff_of_true .refl ⟨rfl, fun above name h => ?_⟩
    simp at h
  | append_singleton s last ih =>
    constructor
    · intro h
      rcases Relation.ReflTransGen.cases_tail h with hnil | ⟨above, habove, entries, name, hlist,
        hmem, hexcluded, heq⟩
      · simp at hnil
      · obtain ⟨rfl, hlast⟩ := List.append_inj' heq rfl
        cases hlast
        refine ⟨hexcluded, fun a n hbelow => ?_⟩
        rcases List.prefix_concat_iff.mp hbelow with heq | hbelow
        · obtain ⟨rfl, hn⟩ := List.append_inj' heq rfl
          cases hn
          exact ⟨entries, hlist, hmem⟩
        · exact (ih.mp habove).2 a n hbelow
    · rintro ⟨hexcluded, hway⟩
      obtain ⟨entries, hlist, hmem⟩ := hway s last List.prefix_rfl
      have hs : r.Visited t s :=
        ih.mpr ⟨excludes_above (List.prefix_append _ _) hexcluded, fun a n hbelow =>
          hway a n (hbelow.trans (List.prefix_append _ _))⟩
      exact hs.tail ⟨entries, last, hlist, hmem, hexcluded, rfl⟩

/-! ### Visits -/

/-- The visit of a directory. -/
def visitAt (t : DirectoryTree) (s : Segments) : Visit :=
  ⟨s, (t.list s).map fun entries => entries.mergeSort TreeEntry.before⟩

theorem visitsFrom_of_error {fault : ListingFault} (h : t.list s = .error fault) :
    r.visitsFrom t s = [visitAt t s] := by
  rw [visitsFrom]
  split
  · rename_i h'
    rw [h] at h'
    cases h'
    rw [visitAt, h]
    rfl
  · rename_i h'
    rw [h] at h'
    cases h'

theorem visitsFrom_of_ok (h : t.list s = .ok entries) :
    r.visitsFrom t s = visitAt t s ::
      (r.chosen .descend s (entries.mergeSort TreeEntry.before)).flatMap
        fun name => r.visitsFrom t (s ++ [name]) := by
  rw [visitsFrom]
  split
  · rename_i h'
    rw [h] at h'
    cases h'
  · rename_i h'
    rw [h] at h'
    cases h'
    simp only [visitAt, h]
    rfl

/-- The names below which the walk goes on. -/
theorem mem_descend_iff :
    name ∈ r.chosen .descend s (entries.mergeSort TreeEntry.before) ↔
      ⟨name, true⟩ ∈ entries ∧ r.excludes (s ++ [name]) = false := by
  simp only [mem_chosen_iff, List.mem_mergeSort, decide_eq_descend_iff]
  constructor
  · rintro ⟨⟨name, isDir⟩, hmem, ⟨rfl, hexcluded⟩, rfl⟩
    exact ⟨hmem, hexcluded⟩
  · rintro ⟨hmem, hexcluded⟩
    exact ⟨_, hmem, ⟨rfl, hexcluded⟩, rfl⟩

/-- **The directories of a walk are those that steps lead to.** -/
theorem mem_segments_visitsFrom :
    s' ∈ (r.visitsFrom t s).map Visit.segments ↔ Relation.ReflTransGen (r.Descends t) s s' := by
  induction s using visitsFrom.induct t with
  | case1 s fault hlist =>
    have hend (s' : Segments) : ¬ r.Descends t s s' := by
      rintro ⟨entries, name, hlist', -⟩
      rw [hlist] at hlist'
      cases hlist'
    rw [visitsFrom_of_error hlist, Relation.ReflTransGen.cases_head_iff]
    simp [visitAt, hend, eq_comm]
  | case2 s entries hlist ih =>
    rw [visitsFrom_of_ok hlist, Relation.ReflTransGen.cases_head_iff, List.map_cons,
      List.mem_cons, List.map_flatMap, List.mem_flatMap]
    refine or_congr eq_comm ⟨?_, ?_⟩
    · rintro ⟨name, hname, hs'⟩
      obtain ⟨hmem, hexcluded⟩ := mem_descend_iff.mp hname
      exact ⟨_, ⟨entries, name, hlist, hmem, hexcluded, rfl⟩, (ih name).mp hs'⟩
    · rintro ⟨_, ⟨entries', name, hlist', hmem, hexcluded, rfl⟩, hs'⟩
      rw [hlist] at hlist'
      cases hlist'
      exact ⟨name, mem_descend_iff.mpr ⟨hmem, hexcluded⟩, (ih name).mpr hs'⟩

theorem mem_segments_visits : s ∈ (r.visits t).map Visit.segments ↔ r.Visited t s :=
  mem_segments_visitsFrom

/-- A visit is determined by its directory. -/
theorem eq_visitAt_of_mem (h : v ∈ r.visitsFrom t s) : v = visitAt t v.segments := by
  induction s using visitsFrom.induct t with
  | case1 s fault hlist =>
    rw [visitsFrom_of_error hlist] at h
    cases List.mem_singleton.mp h
    rfl
  | case2 s entries hlist ih =>
    rw [visitsFrom_of_ok hlist] at h
    rcases List.mem_cons.mp h with rfl | h
    · rfl
    · obtain ⟨name, -, h⟩ := List.mem_flatMap.mp h
      exact ih name h

theorem eq_visitAt (h : v ∈ r.visits t) : v = visitAt t v.segments := eq_visitAt_of_mem h

theorem visitAt_mem_visits (h : r.Visited t s) : visitAt t s ∈ r.visits t := by
  obtain ⟨v, hv, rfl⟩ := List.mem_map.mp (mem_segments_visits.mpr h)
  exact eq_visitAt hv ▸ hv

/-! ### Order -/

/-- What lies below a directory has its names in front. -/
theorem prefix_of_mem_visitsFrom (h : s' ∈ (r.visitsFrom t s).map Visit.segments) : s <+: s' := by
  induction mem_segments_visitsFrom.mp h with
  | refl => exact List.prefix_rfl
  | tail _ hstep ih =>
    obtain ⟨_, _, -, -, -, rfl⟩ := hstep
    exact (ih (mem_segments_visitsFrom.mpr ‹_›)).trans (List.prefix_append _ _)

theorem lt_append_cons (s : Segments) (name : String) (rest : Segments) : s < s ++ name :: rest := by
  have h := List.Lex.append_left (· < ·) (List.Lex.nil (a := name) (l := rest)) s
  rw [List.append_nil] at h
  exact List.lex_lt.mp h

/-- Names that differ decide, whatever follows. -/
theorem append_lt_append {name name' : String} (h : name < name') {x y : Segments}
    (hx : s ++ [name] <+: x) (hy : s ++ [name'] <+: y) : x < y := by
  obtain ⟨x, rfl⟩ := hx
  obtain ⟨y, rfl⟩ := hy
  rw [List.append_assoc, List.append_assoc]
  exact List.lex_lt.mp (List.Lex.append_left _ (List.Lex.rel h) s)

theorem before_trans (a b c : TreeEntry) (hab : a.before b = true) (hbc : b.before c = true) :
    a.before c = true := by
  rcases a with ⟨a, da⟩
  rcases b with ⟨b, db⟩
  rcases c with ⟨c, dc⟩
  cases da <;> cases db <;> cases dc <;> simp_all [TreeEntry.before]
  all_goals exact le_trans hab hbc

theorem before_total (a b : TreeEntry) : (a.before b || b.before a) = true := by
  rcases a with ⟨a, da⟩
  rcases b with ⟨b, db⟩
  cases da <;> cases db <;> simp [TreeEntry.before, le_total]

theorem before_antisymm (a b : TreeEntry) (hab : a.before b = true) (hba : b.before a = true) :
    a = b := by
  rcases a with ⟨a, da⟩
  rcases b with ⟨b, db⟩
  cases da <;> cases db <;> simp_all [TreeEntry.before]
  all_goals exact le_antisymm hab hba

/-- The order in which a directory lists its entries does not show. -/
theorem mergeSort_eq_of_perm {entries' : List TreeEntry} (h : entries.Perm entries') :
    entries.mergeSort TreeEntry.before = entries'.mergeSort TreeEntry.before :=
  List.Perm.eq_of_pairwise (fun a b _ _ => before_antisymm a b)
    (List.pairwise_mergeSort before_trans before_total entries)
    (List.pairwise_mergeSort before_trans before_total entries')
    ((List.mergeSort_perm entries _).trans (h.trans (List.mergeSort_perm entries' _).symm))

/-- The directories of a listing come by name, each once. -/
theorem pairwise_descend (hnames : (entries.map TreeEntry.name).Nodup) (s : Segments) :
    (r.chosen .descend s (entries.mergeSort TreeEntry.before)).Pairwise (· < ·) := by
  have hsorted := List.pairwise_mergeSort before_trans before_total entries
  have hnodup : ((entries.mergeSort TreeEntry.before).map TreeEntry.name).Nodup :=
    ((List.mergeSort_perm entries _).map _).nodup_iff.mpr hnames
  rw [List.Nodup, List.pairwise_map] at hnodup
  rw [chosen, List.pairwise_map]
  refine ((hsorted.and hnodup).filter _).imp_of_mem fun ha hb hab => ?_
  obtain ⟨hbefore, hne⟩ := hab
  have ha := (decide_eq_descend_iff.mp (of_decide_eq_true (List.mem_filter.mp ha).2)).1
  have hb := (decide_eq_descend_iff.mp (of_decide_eq_true (List.mem_filter.mp hb).2)).1
  refine lt_of_le_of_ne ?_ hne
  simpa [TreeEntry.before, ha, hb] using hbefore

/-- **The directories of a walk come in lexicographic order, each once.** -/
theorem pairwise_visitsFrom (ht : t.Distinct) (s : Segments) :
    ((r.visitsFrom t s).map Visit.segments).Pairwise (· < ·) := by
  induction s using visitsFrom.induct t with
  | case1 s fault hlist =>
    rw [visitsFrom_of_error hlist]
    exact List.pairwise_singleton _ _
  | case2 s entries hlist ih =>
    rw [visitsFrom_of_ok hlist, List.map_cons, List.map_flatMap, List.pairwise_cons,
      List.pairwise_flatMap]
    refine ⟨fun x hx => ?_, fun name _ => ih name, ?_⟩
    · obtain ⟨name, -, hx⟩ := List.mem_flatMap.mp hx
      obtain ⟨rest, rfl⟩ := prefix_of_mem_visitsFrom hx
      rw [List.append_assoc]
      exact lt_append_cons s name rest
    · exact (pairwise_descend (ht s entries hlist) s).imp fun h x hx y hy =>
        append_lt_append h (prefix_of_mem_visitsFrom hx) (prefix_of_mem_visitsFrom hy)

theorem pairwise_visits (ht : t.Distinct) :
    ((r.visits t).map Visit.segments).Pairwise (· < ·) := pairwise_visitsFrom ht []

/-! ### Modules -/

/-- The directory is visited and holds a module file, and it is not the root. -/
def Marked (r : WalkRules) (t : DirectoryTree) (s : Segments) : Prop :=
  r.Visited t s ∧ s ≠ [] ∧ ∃ entries, t.list s = .ok entries ∧ ⟨r.moduleFile, false⟩ ∈ entries

theorem finds_visitAt_iff :
    r.finds (visitAt t s) = true ↔
      s ≠ [] ∧ ∃ entries, t.list s = .ok entries ∧ ⟨r.moduleFile, false⟩ ∈ entries := by
  rw [finds, visitAt]
  cases hlist : t.list s with
  | error fault => simp [Except.map]
  | ok entries =>
    simp only [Except.map, Bool.not_eq_true', List.isEmpty_eq_false_iff_exists_mem,
      mem_chosen_iff, List.mem_mergeSort, decide_eq_recordModule_iff, Except.ok.injEq]
    constructor
    · rintro ⟨_, ⟨_, isDir⟩, hmem, ⟨rfl, rfl, hs⟩, rfl⟩
      exact ⟨hs, entries, rfl, hmem⟩
    · rintro ⟨hs, _, rfl, hmem⟩
      exact ⟨_, _, hmem, ⟨rfl, rfl, hs⟩, rfl⟩

/-- The module of a directory. -/
def moduleAt (r : WalkRules) (t : DirectoryTree) (s : Segments) : FoundModule :=
  ⟨Address.format r.separator s, s, t.pathOf s⟩

/-- A module is found at the first visit with its address. -/
theorem mem_modulesOf_iff {m : FoundModule} (hvs : (vs.map Visit.segments).Pairwise (· < ·)) :
    m ∈ r.modulesOf t seen vs ↔ ∃ v ∈ vs, r.finds v = true ∧ m = r.moduleAt t v.segments ∧
      m.address ∉ seen ∧ ∀ u ∈ vs, r.finds u = true → u.segments < v.segments →
        Address.format r.separator u.segments ≠ m.address := by
  induction vs generalizing seen with
  | nil => simp [modulesOf]
  | cons v vs ih =>
    rw [List.map_cons, List.pairwise_cons] at hvs
    obtain ⟨hfirst, hvs⟩ := hvs
    have hlater {u : Visit} (hu : u ∈ vs) : v.segments < u.segments :=
      hfirst _ (List.mem_map_of_mem hu)
    rw [modulesOf]
    split
    · rename_i hfound
      simp only [Bool.and_eq_true, Bool.not_eq_true', ← Bool.not_eq_true, List.contains_iff_mem]
        at hfound
      obtain ⟨hfinds, hunseen⟩ := hfound
      rw [List.mem_cons, ih hvs]
      constructor
      · rintro (rfl | ⟨u, hu, hufinds, rfl, hunseen', hnone⟩)
        · refine ⟨v, List.mem_cons_self, hfinds, rfl, hunseen, fun u hu _ hlt => ?_⟩
          rcases List.mem_cons.mp hu with rfl | hu
          · exact absurd hlt (lt_irrefl _)
          · exact absurd (hlt.trans (hlater hu)) (lt_irrefl _)
        · rw [List.mem_cons, not_or] at hunseen'
          refine ⟨u, List.mem_cons_of_mem _ hu, hufinds, rfl, hunseen'.2, fun w hw hwfinds hlt => ?_⟩
          rcases List.mem_cons.mp hw with rfl | hw
          · exact Ne.symm hunseen'.1
          · exact hnone w hw hwfinds hlt
      · rintro ⟨u, hu, hufinds, rfl, hunseen', hnone⟩
        rcases List.mem_cons.mp hu with rfl | hu
        · exact .inl rfl
        · refine .inr ⟨u, hu, hufinds, rfl, ?_, fun w hw => hnone w (List.mem_cons_of_mem _ hw)⟩
          rw [List.mem_cons, not_or]
          exact ⟨Ne.symm (hnone v List.mem_cons_self hfinds (hlater hu)), hunseen'⟩
    · rename_i hskip
      have hseen (hfinds : r.finds v = true) : Address.format r.separator v.segments ∈ seen := by
        simpa [hfinds] using hskip
      rw [ih hvs]
      constructor
      · rintro ⟨u, hu, hufinds, rfl, hunseen, hnone⟩
        refine ⟨u, List.mem_cons_of_mem _ hu, hufinds, rfl, hunseen, fun w hw hwfinds hlt => ?_⟩
        rcases List.mem_cons.mp hw with rfl | hw
        · exact ne_of_mem_of_not_mem (hseen hwfinds) hunseen
        · exact hnone w hw hwfinds hlt
      · rintro ⟨u, hu, hufinds, rfl, hunseen, hnone⟩
        rcases List.mem_cons.mp hu with rfl | hu
        · exact absurd (hseen hufinds) hunseen
        · exact ⟨u, hu, hufinds, rfl, hunseen, fun w hw => hnone w (List.mem_cons_of_mem _ hw)⟩

/-- The directories of modules are among those of the visits, in the same order. -/
theorem segments_modulesOf_sublist (seen : List String) (vs : List Visit) :
    ((r.modulesOf t seen vs).map FoundModule.segments).Sublist (vs.map Visit.segments) := by
  induction vs generalizing seen with
  | nil => exact .slnil
  | cons v vs ih =>
    rw [modulesOf]
    split
    · exact (ih _).cons_cons _
    · exact (ih _).cons _

theorem modules_walk : (r.walk t).1.modules = r.modulesOf t [] (r.visits t) := rfl

/-- **The modules come in lexicographic order of their directories.** -/
theorem pairwise_modules (ht : t.Distinct) :
    ((r.walk t).1.modules.map FoundModule.segments).Pairwise (· < ·) :=
  (pairwise_visits ht).sublist (segments_modulesOf_sublist _ _)

/-- **A module for every marked directory**, unless an earlier one has its address. -/
theorem mem_modules_iff {m : FoundModule} (ht : t.Distinct) :
    m ∈ (r.walk t).1.modules ↔ ∃ s, r.Marked t s ∧ m = r.moduleAt t s ∧
      ∀ s', r.Marked t s' → s' < s → Address.format r.separator s' ≠ m.address := by
  have hmarked (s : Segments) : r.Marked t s ↔ r.Visited t s ∧ r.finds (visitAt t s) = true :=
    and_congr_right fun _ => finds_visitAt_iff.symm
  rw [modules_walk, mem_modulesOf_iff (pairwise_visits ht)]
  constructor
  · rintro ⟨v, hv, hfinds, rfl, -, hnone⟩
    have hvisited := mem_segments_visits.mp (List.mem_map_of_mem hv)
    refine ⟨v.segments, (hmarked _).mpr ⟨hvisited, eq_visitAt hv ▸ hfinds⟩, rfl, ?_⟩
    intro s' hs' hlt
    exact hnone (visitAt t s') (visitAt_mem_visits hs'.1) ((hmarked s').mp hs').2 hlt
  · rintro ⟨s, hs, rfl, hnone⟩
    refine ⟨visitAt t s, visitAt_mem_visits hs.1, ((hmarked s).mp hs).2, rfl,
      List.not_mem_nil, fun u hu hufinds hlt => ?_⟩
    have hvisited := mem_segments_visits.mp (List.mem_map_of_mem hu)
    exact hnone u.segments ((hmarked _).mpr ⟨hvisited, eq_visitAt hu ▸ hufinds⟩) hlt

/-- No address of a marked directory is left out. -/
theorem exists_mem_modulesOf (hv : v ∈ vs) (hfinds : r.finds v = true) :
    Address.format r.separator v.segments ∈ seen ∨
      ∃ m ∈ r.modulesOf t seen vs, m.address = Address.format r.separator v.segments := by
  induction vs generalizing seen with
  | nil => cases hv
  | cons u vs ih =>
    by_cases hfound : (r.finds u && !seen.contains (Address.format r.separator u.segments)) = true
    · rw [modulesOf, if_pos hfound]
      rcases List.mem_cons.mp hv with rfl | hv
      · exact .inr ⟨_, List.mem_cons_self, rfl⟩
      · rcases ih hv with hseen | ⟨m, hm, hsame⟩
        · rcases List.mem_cons.mp hseen with heq | hseen
          · exact .inr ⟨_, List.mem_cons_self, heq.symm⟩
          · exact .inl hseen
        · exact .inr ⟨m, List.mem_cons_of_mem _ hm, hsame⟩
    · rw [modulesOf, if_neg hfound]
      rcases List.mem_cons.mp hv with rfl | hv
      · exact .inl (by simpa [hfinds] using hfound)
      · exact ih hv

/-- **The module at the address of a marked directory** is that of the first such directory. -/
theorem exists_first (ht : t.Distinct) (hs : r.Marked t s) :
    ∃ first, r.Marked t first ∧ r.moduleAt t first ∈ (r.walk t).1.modules ∧
      Address.format r.separator first = Address.format r.separator s ∧
      ∀ s', r.Marked t s' → Address.format r.separator s' = Address.format r.separator s →
        first ≤ s' := by
  have hfinds : r.finds (visitAt t s) = true := finds_visitAt_iff.mpr hs.2
  have hseen := List.not_mem_nil (a := Address.format r.separator (visitAt t s).segments)
  obtain ⟨m, hm, hsame⟩ := (exists_mem_modulesOf (visitAt_mem_visits hs.1) hfinds).resolve_left hseen
  obtain ⟨first, hfirst, rfl, hnone⟩ := (mem_modules_iff ht).mp hm
  refine ⟨first, hfirst, hm, hsame, fun s' hs' heq => le_of_not_gt fun hlt => ?_⟩
  exact hnone s' hs' hlt (heq.trans hsame.symm)

/-- No two modules have the same address. -/
theorem nodup_addresses (ht : t.Distinct) : (r.walk t).1.addresses.Nodup := by
  have hpairs := pairwise_modules (r := r) ht
  rw [List.pairwise_map] at hpairs
  rw [Discovery.addresses, List.Nodup, List.pairwise_map]
  refine hpairs.imp_of_mem fun {a b} ha hb hlt => ?_
  obtain ⟨s, hs, rfl, -⟩ := (mem_modules_iff ht).mp ha
  obtain ⟨s', hs', rfl, hnone⟩ := (mem_modules_iff ht).mp hb
  exact hnone s hs hlt

/-! ### Directories that cannot be listed -/

/-- The names of the directory of a visit that failed, with the reason. -/
def failure? (v : Visit) : Option (Segments × ListingFault) :=
  match v.listing with
  | .ok _ => none
  | .error fault => some (v.segments, fault)

/-- The names of the directories that a walk could not list. -/
def failures (r : WalkRules) (t : DirectoryTree) : List (Segments × ListingFault) :=
  (r.visits t).filterMap failure?

theorem failure?_eq_some {f : Segments × ListingFault} :
    failure? v = some f ↔ v.segments = f.1 ∧ v.listing = .error f.2 := by
  obtain ⟨segments, listing⟩ := v
  cases listing <;> simp [failure?, Prod.ext_iff]

theorem listing_visitAt_eq_error {fault : ListingFault} :
    (visitAt t s).listing = .error fault ↔ t.list s = .error fault := by
  rw [visitAt]
  cases t.list s <;> simp [Except.map]

/-- The errors of a walk, by name. -/
theorem errors_walk :
    (r.walk t).1.errors = (r.failures t).map fun f => (t.pathOf f.1, f.2.message) := by
  have herror (v : Visit) :
      errorOf? t v = (failure? v).map fun f => (t.pathOf f.1, f.2.message) := by
    rw [errorOf?, failure?]
    cases v.listing <;> rfl
  rw [failures, List.map_filterMap]
  exact List.filterMap_congr fun v _ => herror v

theorem pairwise_failures (ht : t.Distinct) : (r.failures t).Pairwise fun f g => f.1 < g.1 := by
  refine List.Pairwise.filterMap _ (fun v v' hlt f hf f' hf' => ?_)
    (List.pairwise_map.mp (pairwise_visits ht))
  rwa [← (failure?_eq_some.mp hf).1, ← (failure?_eq_some.mp hf').1]

/-- **The directories that could not be listed**, among those that the walk comes to. -/
theorem mem_failures_iff {fault : ListingFault} :
    (s, fault) ∈ r.failures t ↔ r.Visited t s ∧ t.list s = .error fault := by
  rw [failures, List.mem_filterMap]
  constructor
  · rintro ⟨v, hv, hf⟩
    obtain ⟨rfl, hlisting⟩ := failure?_eq_some.mp hf
    rw [eq_visitAt hv, listing_visitAt_eq_error] at hlisting
    exact ⟨mem_segments_visits.mp (List.mem_map_of_mem hv), hlisting⟩
  · rintro ⟨hvisited, hlist⟩
    exact ⟨visitAt t s, visitAt_mem_visits hvisited,
      failure?_eq_some.mpr ⟨rfl, listing_visitAt_eq_error.mpr hlist⟩⟩

/-! ### Directories that are left out -/

/-- The names of the directories that a visit leaves out. -/
def skips (r : WalkRules) (v : Visit) : List Segments :=
  match v.listing with
  | .ok entries => (r.chosen .skipSubtree v.segments entries).map fun name => v.segments ++ [name]
  | .error _ => []

/-- The names of the directories that a walk leaves out. -/
def leftOut (r : WalkRules) (t : DirectoryTree) : List Segments := (r.visits t).flatMap r.skips

/-- The skipped directories of a walk, by name. -/
theorem skipped_walk : (r.walk t).1.skipped = (r.leftOut t).map t.pathOf := by
  have hskips (v : Visit) : r.skippedOf t v = (r.skips v).map t.pathOf := by
    rw [skippedOf, skips]
    cases v.listing with
    | error fault => rfl
    | ok entries => simp only [List.map_map, Function.comp_def]
  rw [leftOut, List.map_flatMap]
  exact List.flatMap_congr fun v _ => hskips v

theorem exists_of_mem_skips (h : s ∈ r.skips v) : ∃ name, s = v.segments ++ [name] := by
  rw [skips] at h
  split at h
  · obtain ⟨name, -, rfl⟩ := List.mem_map.mp h
    exact ⟨name, rfl⟩
  · cases h

theorem concat_mem_skips_iff :
    s ++ [name] ∈ r.skips (visitAt t s) ↔ r.excludes (s ++ [name]) = true ∧
      ∃ entries, t.list s = .ok entries ∧ ⟨name, true⟩ ∈ entries := by
  rw [skips, visitAt]
  cases hlist : t.list s with
  | error fault => simp [Except.map]
  | ok entries =>
    simp only [Except.map, List.mem_map, List.append_cancel_left_eq, List.cons.injEq, and_true,
      exists_eq_right, mem_chosen_iff, List.mem_mergeSort, decide_eq_skipSubtree_iff,
      Except.ok.injEq]
    constructor
    · rintro ⟨⟨name, isDir⟩, hmem, ⟨rfl, hexcluded⟩, rfl⟩
      exact ⟨hexcluded, entries, rfl, hmem⟩
    · rintro ⟨hexcluded, _, rfl, hmem⟩
      exact ⟨_, hmem, ⟨rfl, hexcluded⟩, rfl⟩

theorem nodup_skips (ht : t.Distinct) (s : Segments) : (r.skips (visitAt t s)).Nodup := by
  rw [skips, visitAt]
  cases hlist : t.list s with
  | error fault => exact List.nodup_nil
  | ok entries =>
    have hperm := (List.mergeSort_perm entries TreeEntry.before).map TreeEntry.name
    have hnodup := hperm.nodup_iff.mpr (ht s entries hlist)
    exact (hnodup.sublist (List.filter_sublist.map _)).map fun a b heq => by simpa using heq

theorem nodup_leftOut (ht : t.Distinct) : (r.leftOut t).Nodup := by
  rw [leftOut, List.nodup_flatMap]
  constructor
  · intro v hv
    rw [eq_visitAt hv]
    exact nodup_skips ht v.segments
  · refine (List.pairwise_map.mp (pairwise_visits ht)).imp fun hlt s hs hs' => ?_
    obtain ⟨name, rfl⟩ := exists_of_mem_skips hs
    obtain ⟨name', heq⟩ := exists_of_mem_skips hs'
    exact hlt.ne (List.append_inj_left' heq rfl)

/-- **The directories that are left out** have an excluded name and lie in a directory that the walk
comes to. -/
theorem concat_mem_leftOut_iff :
    s ++ [name] ∈ r.leftOut t ↔ r.Visited t s ∧ r.excludes (s ++ [name]) = true ∧
      ∃ entries, t.list s = .ok entries ∧ ⟨name, true⟩ ∈ entries := by
  rw [leftOut, List.mem_flatMap]
  constructor
  · rintro ⟨v, hv, hmem⟩
    obtain ⟨name', heq⟩ := exists_of_mem_skips hmem
    obtain rfl : s = v.segments := List.append_inj_left' heq rfl
    rw [eq_visitAt hv] at hmem
    exact ⟨mem_segments_visits.mp (List.mem_map_of_mem hv), concat_mem_skips_iff.mp hmem⟩
  · rintro ⟨hvisited, hskipped⟩
    exact ⟨visitAt t s, visitAt_mem_visits hvisited, concat_mem_skips_iff.mpr hskipped⟩

/-- Nothing but directories below the root is left out. -/
theorem exists_of_mem_leftOut (h : s ∈ r.leftOut t) : ∃ above name, s = above ++ [name] := by
  obtain ⟨v, -, hmem⟩ := List.mem_flatMap.mp h
  exact ⟨v.segments, exists_of_mem_skips hmem⟩

/-! ### Trees that look the same -/

section Congr

variable {t' : DirectoryTree}

/-- Only the directories that the walk comes to have to look the same. -/
theorem visitsFrom_congr
    (h : ∀ s', Relation.ReflTransGen (r.Descends t) s s' → visitAt t' s' = visitAt t s') :
    r.visitsFrom t' s = r.visitsFrom t s := by
  have hlisting (s : Segments) (h : visitAt t' s = visitAt t s) :
      (t'.list s).map (fun entries => entries.mergeSort TreeEntry.before) =
        (t.list s).map fun entries => entries.mergeSort TreeEntry.before :=
    (Visit.mk.inj h).2
  induction s using visitsFrom.induct t with
  | case1 s fault hlist =>
    have hlist' := hlisting s (h s .refl)
    rw [hlist] at hlist'
    cases hlist'' : t'.list s with
    | error fault' => rw [visitsFrom_of_error hlist, visitsFrom_of_error hlist'', h s .refl]
    | ok entries' =>
      rw [hlist''] at hlist'
      cases hlist'
  | case2 s entries hlist ih =>
    have hlist' := hlisting s (h s .refl)
    rw [hlist] at hlist'
    cases hlist'' : t'.list s with
    | error fault' =>
      rw [hlist''] at hlist'
      cases hlist'
    | ok entries' =>
      rw [hlist''] at hlist'
      have hsorted : entries'.mergeSort TreeEntry.before = entries.mergeSort TreeEntry.before :=
        Except.ok.inj hlist'
      rw [visitsFrom_of_ok hlist, visitsFrom_of_ok hlist'', h s .refl, hsorted]
      refine congrArg _ (List.flatMap_congr fun name hname => ih name fun s' hs' => h s' ?_)
      obtain ⟨hmem, hexcluded⟩ := mem_descend_iff.mp hname
      exact .head ⟨entries, name, hlist, hmem, hexcluded, rfl⟩ hs'

theorem modulesOf_congr_root (hroot : t'.root = t.root) (seen : List String) (vs : List Visit) :
    r.modulesOf t' seen vs = r.modulesOf t seen vs := by
  induction vs generalizing seen with
  | nil => rfl
  | cons v vs ih =>
    rw [modulesOf, modulesOf, ih, ih, DirectoryTree.pathOf, DirectoryTree.pathOf, hroot]

/-- **A walk looks at a tree only through its root and the listings of the directories that it comes
to**, and at these only in its own order. -/
theorem walk_congr (hroot : t'.root = t.root) (h : ∀ s, r.Visited t s → visitAt t' s = visitAt t s) :
    r.walk t' = r.walk t := by
  have hpath : t'.pathOf = t.pathOf := funext fun s => by
    rw [DirectoryTree.pathOf, DirectoryTree.pathOf, hroot]
  have herror : errorOf? t' = errorOf? t := funext fun v => by rw [errorOf?, errorOf?, hpath]
  have hskipped : r.skippedOf t' = r.skippedOf t := funext fun v => by
    rw [skippedOf, skippedOf, hpath]
  have hlog : visitLog t' = visitLog t := funext fun modules => funext fun v => by
    rw [visitLog, visitLog, herror]
  have hresult (vs : List Visit) : r.result t' vs = r.result t vs := by
    rw [result, result, hroot, modulesOf_congr_root hroot, herror, hskipped]
  rw [walk, walk, visits, visits, visitsFrom_congr h, hresult, hlog]

/-- **The modules depend on the marked directories alone**, whatever else has been made or gone. -/
theorem modules_congr (ht : t.Distinct) (ht' : t'.Distinct) (hroot : t'.root = t.root)
    (hmarked : ∀ s, r.Marked t' s ↔ r.Marked t s) :
    (r.walk t').1.modules = (r.walk t).1.modules := by
  have hmodule (s : Segments) : r.moduleAt t' s = r.moduleAt t s := by
    rw [moduleAt, moduleAt, DirectoryTree.pathOf, DirectoryTree.pathOf, hroot]
  have hmem (m : FoundModule) : m ∈ (r.walk t').1.modules ↔ m ∈ (r.walk t).1.modules := by
    simp only [mem_modules_iff ht', mem_modules_iff ht, hmarked, hmodule]
  have hpairs := List.pairwise_map.mp (pairwise_modules (r := r) ht)
  have hpairs' := List.pairwise_map.mp (pairwise_modules (r := r) ht')
  have hnodup {ms : List FoundModule} (h : ms.Pairwise fun m m' => m.segments < m'.segments) :
      ms.Nodup := by
    refine h.imp ?_
    rintro m m' hlt rfl
    exact lt_irrefl _ hlt
  exact ((List.perm_ext_iff_of_nodup (hnodup hpairs') (hnodup hpairs)).mpr hmem).eq_of_pairwise
    (fun _ _ _ _ hlt hgt => absurd hgt hlt.asymm) hpairs' hpairs

end Congr

end WalkRules

end ModulePins
