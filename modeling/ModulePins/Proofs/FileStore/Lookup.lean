import ModulePins.Proofs.FileStore.Nodes

/-!
# Paths without links

A look-up follows links, and links are what makes it hard to say where a path leads. Without them
the place is a matter of the text: `spot` walks the components and takes `..` as one step up. It
does not say that the place can be reached, since a directory on the way may be missing; that is
`Reaches`, and directories that are made later only ever make more paths reach their spot.

`Direct` is the condition under which the two agree with the look-up of the library. It concerns the
locations that the path itself passes and no others: links elsewhere in the store do no harm.

## Main definitions

* `FileStore.spot` — the location that a path names
* `FileStore.Direct` — no link is in the way
* `FileStore.Reaches` — the look-up gets there

## Main results

* `FileStore.locate_eq` — the look-up of a direct path
* `FileStore.realPath_eq` — the real path of a direct path is its spot
* `FileStore.Direct.mono`, `FileStore.Reaches.mono` — both outlast changes to regular files
-/

namespace ModulePins

namespace FileStore

variable {s s' : FileStore} {p : Path} {here l : Location} {rest : List String} {name : String}
  {followLast : Bool} {links : ℕ}

/-! ### Walking -/

/-- Where components lead from a location if no link is in the way. -/
def walkFrom (here : Location) : List String → Location
  | [] => here
  | name :: rest => walkFrom (if name = ".." then here.dropLast else here ++ [name]) rest

/-- The location that a path names if no link is in the way. -/
def spot (s : FileStore) (p : Path) : Location := walkFrom (s.start p) p.parts

/-- No component leads to a link. -/
def LinkFree (s : FileStore) (here : Location) : List String → Prop
  | [] => True
  | name :: rest =>
    if name = ".." then LinkFree s here.dropLast rest
    else (∀ t, s.node? (here ++ [name]) ≠ some (.link t)) ∧ LinkFree s (here ++ [name]) rest

/-- No link is in the way of the path, nor above the directory that it starts from. -/
structure Direct (s : FileStore) (p : Path) : Prop where
  above : LinkFree s [] (s.start p)
  along : LinkFree s (s.start p) p.parts

/-- The look-up without links: a link counts as nothing. -/
def reach (s : FileStore) (here : Location) : List String → Except FileCause Location
  | [] => .ok here
  | name :: rest =>
    if name = ".." then reach s here.dropLast rest
    else if nameLimit < name.utf8ByteSize then .error .nameTooLong
    else
      match s.node? (here ++ [name]) with
      | some .directory => reach s (here ++ [name]) rest
      | some (.file _) => if rest.isEmpty then .ok (here ++ [name]) else .error .notADirectory
      | _ => if rest.isEmpty then .ok (here ++ [name]) else .error .notFound

/-- The look-up of the path gets to its spot. -/
def Reaches (s : FileStore) (p : Path) : Prop := reach s (s.start p) p.parts = .ok (spot s p)

theorem reach_eq_walkFrom (h : reach s here rest = .ok l) : l = walkFrom here rest := by
  induction rest generalizing here with
  | nil => exact (Except.ok.inj h).symm
  | cons name rest ih =>
    rw [reach] at h
    rw [walkFrom]
    split at h
    · rename_i hup
      rw [if_pos hup]
      exact ih h
    · rename_i hup
      rw [if_neg hup]
      split at h
      · cases h
      · split at h
        · exact ih h
        all_goals
          split at h
          · rename_i hlast
            cases h
            rw [List.isEmpty_iff.mp hlast, walkFrom]
          · cases h

theorem reach_ne_tooManyLinks : reach s here rest ≠ .error .tooManyLinks := by
  induction rest generalizing here with
  | nil => exact fun h => by cases h
  | cons name rest ih =>
    rw [reach]
    split
    · exact ih
    · split
      · exact fun h => by cases h
      · split
        · exact ih
        all_goals split <;> exact fun h => by cases h

theorem reach_mono (hdirs : ∀ l, s.node? l = some .directory → s'.node? l = some .directory)
    (h : reach s here rest = .ok l) : reach s' here rest = .ok l := by
  induction rest generalizing here with
  | nil => exact h
  | cons name rest ih =>
    rw [reach] at h ⊢
    split at h
    · rename_i hup
      rw [if_pos hup]
      exact ih h
    · rename_i hup
      rw [if_neg hup]
      split at h
      · cases h
      · rename_i hlong
        rw [if_neg hlong]
        split at h
        · rename_i hdir
          rw [hdirs _ hdir]
          exact ih h
        -- the last component may be anything
        all_goals
          split at h
          · rename_i hlast
            rw [List.isEmpty_iff.mp hlast]
            split <;> simpa [reach] using h
          · cases h

theorem locateFrom_eq_reach (h : LinkFree s here rest) :
    locateFrom s followLast links here rest = reach s here rest := by
  induction rest generalizing here with
  | nil => rw [locateFrom, reach]
  | cons name rest ih =>
    rw [LinkFree] at h
    rw [locateFrom, reach]
    split
    · rename_i hup
      rw [if_pos hup] at h
      exact ih h
    · rename_i hup
      rw [if_neg hup] at h
      split
      · rfl
      · cases hnode : s.node? (here ++ [name]) with
        | none => simp only [hnode]
        | some n =>
          cases n with
          | directory => simpa only [hnode] using ih h.2
          | file b => simp only [hnode]
          | link t => exact absurd hnode (h.1 t)

/-- In a store without links every path is direct. -/
theorem direct_of_no_link (h : ∀ l t, s.node? l ≠ some (.link t)) (p : Path) : Direct s p := by
  have hfree (here : Location) (rest : List String) : LinkFree s here rest := by
    induction rest generalizing here with
    | nil => trivial
    | cons name rest ih =>
      rw [LinkFree]
      split
      · exact ih _
      · exact ⟨h _, ih _⟩
  exact ⟨hfree _ _, hfree _ _⟩

/-- **The look-up of a direct path.** -/
theorem locate_eq (h : Direct s p) (followLast : Bool) :
    s.locate p followLast =
      (reach s (s.start p) p.parts).mapError fun c => ⟨c, p.toString⟩ := by
  rw [locate, locateFrom_eq_reach h.along]

theorem locate_eq_ok_iff (h : Direct s p) :
    s.locate p followLast = .ok l ↔ Reaches s p ∧ l = spot s p := by
  rw [locate_eq h, Reaches]
  cases hreach : reach s (s.start p) p.parts with
  | error c => exact iff_of_false (by rintro ⟨⟩) (by rintro ⟨⟨⟩, -⟩)
  | ok l' =>
    have hl' : l' = spot s p := reach_eq_walkFrom hreach
    change Except.ok l' = .ok l ↔ _
    simp [hl', eq_comm]

theorem locate_of_reaches (h : Direct s p) (hr : Reaches s p) : s.locate p followLast = .ok (spot s p) :=
  (locate_eq_ok_iff h).mpr ⟨hr, rfl⟩

theorem spot_eq (h : s'.current = s.current) (p : Path) : spot s' p = spot s p := by
  rw [spot, spot, start, start, h]

theorem LinkFree.mono (hlinks : ∀ l t, s'.node? l = some (.link t) → s.node? l = some (.link t))
    (h : LinkFree s here rest) : LinkFree s' here rest := by
  induction rest generalizing here with
  | nil => trivial
  | cons name rest ih =>
    rw [LinkFree] at h ⊢
    split
    · rename_i hup
      rw [if_pos hup] at h
      exact ih h
    · rename_i hup
      rw [if_neg hup] at h
      exact ⟨fun t ht => h.1 t (hlinks _ t ht), ih h.2⟩

theorem Direct.mono (hk : Keeps s s') (h : Direct s p) : Direct s' p := by
  have hstart : s'.start p = s.start p := by rw [start, start, hk.current]
  exact ⟨hstart ▸ h.above.mono hk.links, hstart ▸ h.along.mono hk.links⟩

theorem Reaches.mono (hk : Keeps s s') (h : Reaches s p) : Reaches s' p := by
  have hstart : s'.start p = s.start p := by rw [start, start, hk.current]
  rw [Reaches, spot_eq hk.current, hstart]
  exact reach_mono hk.directories h

/-! ### Locations of real directories -/

theorem walkFrom_of_proper (h : ".." ∉ rest) : walkFrom here rest = here ++ rest := by
  induction rest generalizing here with
  | nil => simp [walkFrom]
  | cons name rest ih =>
    rw [List.mem_cons, not_or] at h
    rw [walkFrom, if_neg (Ne.symm h.1), ih h.2, List.append_assoc, List.singleton_append]

theorem not_mem_walkFrom (h : ".." ∉ here) : ".." ∉ walkFrom here rest := by
  induction rest generalizing here with
  | nil => exact h
  | cons name rest ih =>
    rw [walkFrom]
    split
    · exact ih fun hmem => h (List.dropLast_subset _ hmem)
    · rename_i hup
      refine ih fun hmem => ?_
      rcases List.mem_append.mp hmem with hmem | hmem
      · exact h hmem
      · exact hup (List.mem_singleton.mp hmem).symm

theorem linkFree_append {xs ys : List String} :
    LinkFree s here (xs ++ ys) ↔ LinkFree s here xs ∧ LinkFree s (walkFrom here xs) ys := by
  induction xs generalizing here with
  | nil => simp [LinkFree, walkFrom]
  | cons name xs ih =>
    rw [List.cons_append, LinkFree, LinkFree, walkFrom]
    split
    · exact ih
    · rw [ih, and_assoc]

/-- The walk from the root to the place that another walk ends at passes no link either. -/
theorem linkFree_walkFrom (hproper : ".." ∉ here) (habove : LinkFree s [] here)
    (h : LinkFree s here rest) : LinkFree s [] (walkFrom here rest) := by
  induction rest generalizing here with
  | nil => exact habove
  | cons name rest ih =>
    rw [LinkFree] at h
    rw [walkFrom]
    split
    · rename_i hup
      rw [if_pos hup] at h
      have hproper' : ".." ∉ here.dropLast := fun hmem => hproper (List.dropLast_subset _ hmem)
      refine ih hproper' ?_ h
      rcases here.eq_nil_or_concat' with rfl | ⟨above, last, rfl⟩
      · exact habove
      · rw [List.dropLast_concat]
        exact (linkFree_append.mp habove).1
    · rename_i hup
      rw [if_neg hup] at h
      have hproper' : ".." ∉ here ++ [name] := by
        rw [List.mem_append, List.mem_singleton]
        rintro (hmem | rfl)
        · exact hproper hmem
        · exact hup rfl
      refine ih hproper' (linkFree_append.mpr ⟨habove, ?_⟩) h.2
      rw [walkFrom_of_proper hproper, List.nil_append, LinkFree, if_neg hup]
      exact ⟨h.1, trivial⟩

theorem realFrom_walk {depth : ℕ} (h : LinkFree s here rest) (opened : List Location) :
    realFrom.walk s opened depth here rest = (walkFrom here rest, true) := by
  induction rest generalizing here with
  | nil => rw [realFrom.walk, walkFrom]
  | cons name rest ih =>
    rw [LinkFree] at h
    rw [walkFrom]
    split
    · rename_i hup
      rw [if_pos hup] at h
      rw [hup, realFrom.walk]
      exact ih h
    · rename_i hup
      rw [if_neg hup] at h
      have hlink : ∀ t, s.node? (here ++ [name]) ≠ some (.link t) := h.1
      rw [realFrom.walk]
      · dsimp only
        split
        · exact ih h.2
        · rename_i target htarget
          split at htarget
          · cases htarget
          · split at htarget
            · exact absurd ‹_› (hlink _)
            · cases htarget
      · exact hup

theorem collapseDots_of_proper {l : List String} (h : ".." ∉ l) : collapseDots l = l := by
  have hfold (back : List String) :
      l.foldl (fun (back : List String) p => if p = ".." then back.drop 1 else p :: back) back =
        l.reverse ++ back := by
    induction l generalizing back with
    | nil => rfl
    | cons name l ih =>
      rw [List.mem_cons, not_or] at h
      rw [List.foldl_cons, if_neg (Ne.symm h.1), ih h.2, List.reverse_cons, List.append_assoc,
        List.singleton_append]
  rw [collapseDots, hfold, List.append_nil, List.reverse_reverse]

/-- **The real path of a direct path is its spot.** -/
theorem realPath_eq (h : Direct s p) (hproper : ".." ∉ s.current) :
    s.realPath p = .ok ⟨.root, spot s p⟩ := by
  have hstart : ".." ∉ s.start p := by
    rw [start]
    split
    · exact List.not_mem_nil
    · exact hproper
  have hspot : ".." ∉ spot s p := not_mem_walkFrom hstart
  have hdirect : Direct s ⟨.root, spot s p⟩ :=
    ⟨trivial, linkFree_walkFrom hstart h.above h.along⟩
  have hcollapse : collapseDots (walkFrom (s.start p) p.parts) = spot s p :=
    collapseDots_of_proper hspot
  rw [realPath, realFrom, realFrom_walk h.along]
  dsimp only
  rw [hcollapse, locate_eq hdirect]
  cases hreach : reach s (s.start ⟨.root, spot s p⟩) (spot s p) with
  | ok l => rfl
  | error c =>
    have hc : c ≠ .tooManyLinks := by
      rintro rfl
      exact reach_ne_tooManyLinks hreach
    exact if_neg hc

end FileStore

end ModulePins
