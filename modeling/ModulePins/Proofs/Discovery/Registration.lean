import ModulePins.Proofs.Discovery.Walk

/-!
# Walks that register

A walk can be given an action that it takes for every module it finds. It then goes from directory
to directory with what it has found so far, and the actions happen on the way. This is the same as
looking first and acting afterwards: the action is taken once for each module of the walk without
actions, with its address, in the order of the modules.

## Main definitions

* `WalkRules.extend` — a discovery with what further visits amount to

## Main results

* `WalkRules.visitWith_eq` — what lies below one directory
* `WalkRules.walkWith_eq` — a whole walk
-/

namespace ModulePins

namespace WalkRules

variable {r : WalkRules} {t : DirectoryTree} {seen seen' : List String} {vs vs' : List Visit}
  {d : Discovery} {s : Segments}

/-! ### Visits one after the other -/

/-- Which addresses were seen counts, not where. -/
theorem modulesOf_congr (h : ∀ a, a ∈ seen ↔ a ∈ seen') :
    r.modulesOf t seen vs = r.modulesOf t seen' vs := by
  induction vs generalizing seen seen' with
  | nil => rfl
  | cons v vs ih =>
    have hcontains (a : String) : seen.contains a = seen'.contains a := by
      rw [Bool.eq_iff_iff, List.contains_iff_mem, List.contains_iff_mem, h]
    have hcons (b : String) : r.modulesOf t (b :: seen) vs = r.modulesOf t (b :: seen') vs :=
      ih fun a => by simp only [List.mem_cons, h]
    rw [modulesOf, modulesOf, hcontains, ih h, hcons]

/-- The modules of later visits are those whose address was not found by the earlier ones. -/
theorem modulesOf_append :
    r.modulesOf t seen (vs ++ vs') = r.modulesOf t seen vs ++
      r.modulesOf t (seen ++ (r.modulesOf t seen vs).map FoundModule.address) vs' := by
  induction vs generalizing seen with
  | nil => simp [modulesOf]
  | cons v vs ih =>
    rw [List.cons_append, modulesOf, modulesOf]
    split
    · rw [ih, List.cons_append]
      congr 2
      exact modulesOf_congr fun a => by simp [or_left_comm]
    · exact ih

theorem modulesOf_singleton (v : Visit) : r.modulesOf t seen [v] =
    if r.finds v && !seen.contains (Address.format r.separator v.segments) then
      [r.moduleAt t v.segments]
    else [] := rfl

/-- A discovery with what further visits amount to. -/
def extend (r : WalkRules) (t : DirectoryTree) (d : Discovery) (vs : List Visit) : Discovery where
  root := d.root
  modules := d.modules ++ r.modulesOf t d.addresses vs
  errors := d.errors ++ vs.filterMap (errorOf? t)
  skipped := d.skipped ++ vs.flatMap (r.skippedOf t)

theorem extend_nil : r.extend t d [] = d := by
  simp [extend, modulesOf]

theorem extend_append : r.extend t d (vs ++ vs') = r.extend t (r.extend t d vs) vs' := by
  simp only [extend, Discovery.addresses, modulesOf_append, List.map_append, List.append_assoc,
    List.filterMap_append, List.flatMap_append]

/-! ### Acting on the way -/

variable {m : Type → Type} [Monad m] [LawfulMonad m] {register : String → m Unit}

/-- Looks first and acts afterwards. -/
def actOn (r : WalkRules) (t : DirectoryTree) (register : String → m Unit) (d : Discovery)
    (vs : List Visit) : m Discovery := do
  forM (r.modulesOf t d.addresses vs) fun found => register found.address
  pure (r.extend t d vs)

theorem actOn_append : r.actOn t register d (vs ++ vs') =
    r.actOn t register d vs >>= fun d' => r.actOn t register d' vs' := by
  simp only [actOn, extend_append, bind_assoc, pure_bind]
  rw [modulesOf_append, List.forM_append, bind_assoc]
  simp only [extend, Discovery.addresses, List.map_append]

/-- If each branch looks first, so do branches that are visited one after the other. -/
theorem foldlM_actOn {branch : String → List Visit} (names : List String) (d : Discovery) :
    names.foldlM (fun d name => r.actOn t register d (branch name)) d =
      r.actOn t register d (names.flatMap branch) := by
  induction names generalizing d with
  | nil => simp [actOn, modulesOf, extend_nil]
  | cons name names ih =>
    rw [List.foldlM_cons, List.flatMap_cons, actOn_append]
    exact bind_congr ih

/-- The step at a directory that can be listed. -/
theorem actOn_visitAt {entries : List TreeEntry} (hlist : t.list s = .ok entries) :
    r.actOn t register d [visitAt t s] =
      if r.finds (visitAt t s) && !d.addresses.contains (Address.format r.separator s) then do
        register (Address.format r.separator s)
        pure { d with
          modules := d.modules ++ [r.moduleAt t s]
          skipped := d.skipped ++ r.skippedOf t (visitAt t s) }
      else pure { d with skipped := d.skipped ++ r.skippedOf t (visitAt t s) } := by
  have hlisted : errorOf? t (visitAt t s) = none := by rw [errorOf?, visitAt, hlist]; rfl
  have hsegments : (visitAt t s).segments = s := rfl
  simp only [actOn, extend, modulesOf_singleton, hsegments, hlisted, List.filterMap_cons,
    List.filterMap_nil, List.append_nil, List.flatMap_cons, List.flatMap_nil]
  cases r.finds (visitAt t s) && !d.addresses.contains (Address.format r.separator s)
  · simp
  · simp [moduleAt]

/-- **Below one directory**, acting on the way is acting afterwards. -/
theorem visitWith_eq : r.visitWith t register s d = r.actOn t register d (r.visitsFrom t s) := by
  induction s using visitsFrom.induct t generalizing d with
  | case1 s fault hlist =>
    rw [visitsFrom_of_error hlist, visitWith]
    split
    · rename_i h
      rw [hlist] at h
      cases h
      simp [actOn, extend, modulesOf, finds, errorOf?, skippedOf, visitAt, hlist, Except.map]
    · rename_i h
      rw [hlist] at h
      cases h
  | case2 s entries hlist ih =>
    rw [visitsFrom_of_ok hlist, ← List.singleton_append, actOn_append, visitWith]
    split
    · rename_i h
      rw [hlist] at h
      cases h
    · rename_i h
      rw [hlist] at h
      cases h
      simp only [ih, foldlM_actOn]
      have hvisit : visitAt t s = ⟨s, .ok (entries.mergeSort TreeEntry.before)⟩ := by
        rw [visitAt, hlist]
        rfl
      rw [← hvisit, actOn_visitAt hlist]
      cases r.finds (visitAt t s) && !d.addresses.contains (Address.format r.separator s) <;>
        simp only [Bool.false_eq_true, ↓reduceIte, pure_bind, bind_assoc, moduleAt]

/-- **A walk that registers.** It finds what a walk without actions finds, and the action is taken
for the address of each module, in the order of the modules. -/
theorem walkWith_eq : r.walkWith t register =
    (do forM (r.walk t).1.addresses register
        return (r.walk t).1) := by
  rw [walkWith, visitWith_eq, actOn, Discovery.addresses, Discovery.addresses, List.forM_map]
  rfl

end WalkRules

end ModulePins
