import ModulePins.Proofs.FileStore.Links

/-!
# Operations through links

What the operations on files do to a store when their paths lead through links. A path is named by
its real path, which does not depend on what has been written so far, and `Touches ps` says that
nothing but the files with these real paths has changed. Frames of several operations then add up,
although each is about the store that it began with.

Moving a file is the one operation that does not follow the last link of its paths. It is described
here for paths that end in no link.

## Main definitions

* `FileStore.Touches` — the files with other real paths are the same
* `FileStore.EndsInLink` — the last component of a path is a link

## Main results

* `FileStore.written_touches` — writing a file, behind making directories
* `FileStore.replaced_touches` — moving a regular file
-/

namespace ModulePins

namespace FileStore

variable {s s' s'' dirs files : FileStore} {p q : Path} {ps qs : List Path} {l : Location}
  {b : ByteArray}

/-! ### Asking -/

theorem readBytes_eq_ok_iff_locate :
    s.readBytes p = .ok b ↔ ∃ l, s.locate p true = .ok l ∧ s.node? l = some (.file b) := by
  rw [readBytes]
  cases s.locate p true with
  | error e => simp [bind, Except.bind]
  | ok l =>
    simp only [bind, Except.bind, Except.ok.injEq, exists_eq_left']
    cases s.node? l with
    | none => simp [throw, throwThe, MonadExceptOf.throw]
    | some n => cases n <;> simp [throw, throwThe, MonadExceptOf.throw, pure, Except.pure]

theorem kind?_of_readBytes (h : s.readBytes p = .ok b) : s.kind? p = .ok (some (.file b)) := by
  obtain ⟨l, hl, hnode⟩ := readBytes_eq_ok_iff_locate.mp h
  rw [kind?, hl, ← hnode]

theorem isFile?_eq_true_iff_locate :
    s.isFile? p = .ok true ↔ ∃ l b, s.locate p true = .ok l ∧ s.node? l = some (.file b) := by
  rw [isFile?, kind?]
  cases hlocate : s.locate p true with
  | error e => by_cases hlong : e.cause = .nameTooLong <;>
      simp [hlong, bind, Except.bind, pure, Except.pure]
  | ok l =>
    cases hnode : s.node? l with
    | none => simp [hnode, bind, Except.bind, pure, Except.pure]
    | some n => cases n <;> simp [hnode, bind, Except.bind, pure, Except.pure]

/-! ### Frames -/

/-- Regular files are the same but for those with one of these real paths, and so are the links; no
directory has gone. -/
structure Touches (ps : List Path) (s s' : FileStore) : Prop extends SameLinks s s' where
  file_iff : ∀ l, (∀ p ∈ ps, s.realPath p ≠ .ok ⟨.root, l⟩) →
    ∀ b, s'.node? l = some (.file b) ↔ s.node? l = some (.file b)

theorem Touches.refl (ps : List Path) (s : FileStore) : Touches ps s s :=
  ⟨SameLinks.refl s, fun _ _ _ => Iff.rfl⟩

theorem Touches.trans (h : Touches ps s s') (h' : Touches qs s' s'') : Touches (ps ++ qs) s s'' := by
  refine ⟨h.toSameLinks.trans h'.toSameLinks, fun l hl b => ?_⟩
  have hps : ∀ p ∈ ps, s.realPath p ≠ .ok ⟨.root, l⟩ := fun p hp =>
    hl p (List.mem_append_left _ hp)
  have hqs : ∀ p ∈ qs, s'.realPath p ≠ .ok ⟨.root, l⟩ := fun p hp hreal =>
    hl p (List.mem_append_right _ hp) (h.toSameLinks.realPath hreal)
  exact (h'.file_iff l hqs b).trans (h.file_iff l hps b)

theorem Touches.mono (hsub : ps ⊆ qs) (h : Touches ps s s') : Touches qs s s' :=
  ⟨h.toSameLinks, fun l hl => h.file_iff l fun p hp => hl p (hsub hp)⟩

theorem Extends.touches (h : Extends s s') (ps : List Path) : Touches ps s s' :=
  ⟨h.sameLinks, fun _ _ _ => h.file_iff⟩

/-! ### Writing -/

/-- What writing a file leaves, behind making directories. -/
theorem written_touches (hhome : Homed s) (hdirs : Extends s dirs)
    (hw : dirs.writeBytes p b = .ok files) :
    Touches [p] s files ∧ ∃ l, s.realPath p = .ok ⟨.root, l⟩ ∧ files.realPath p = .ok ⟨.root, l⟩ ∧
      files.locate p true = .ok l ∧ files.node? l = some (.file b) := by
  rw [writeBytes] at hw
  obtain ⟨l, hlocate, hw⟩ := Except.bind_eq_ok_iff.mp hw
  have hhome' := hhome.mono hdirs.sameLinks
  obtain ⟨hreal, hl⟩ := realPath_of_locate hhome' hlocate
  split at hw
  · cases hw
  · rename_i hdir
    obtain rfl : dirs.put l (.file b) = files := Except.ok.inj hw
    have hplain : Plain dirs l := ⟨hdir, hl.not_link⟩
    have hput := SameLinks.put hplain b
    have hlocate' := locate_mono hput hlocate
    have hreal' := hdirs.sameLinks.realPath hreal
    refine ⟨⟨hdirs.sameLinks.trans hput, fun l' hl' b' => ?_⟩, l, hreal',
      (realPath_of_locate (hhome'.mono hput) hlocate').1, hlocate', node?_put_self hdir _⟩
    have hne : l' ∉ [l] := fun hmem =>
      hl' p List.mem_cons_self (List.mem_singleton.mp hmem ▸ hreal')
    exact ((ChangesOnly.put hdir b).file_iff l' hne b').trans hdirs.file_iff

/-! ### Moving -/

/-- The last component of the path is a link. -/
def EndsInLink (s : FileStore) (p : Path) : Prop :=
  ∃ d t, s.realPath p.parent = .ok ⟨.root, d⟩ ∧ s.node? (d ++ [p.name]) = some (.link t)

theorem endsInLink_iff {d : Location} (h : s.realPath p.parent = .ok ⟨.root, d⟩) :
    EndsInLink s p ↔ ∃ t, s.node? (d ++ [p.name]) = some (.link t) := by
  constructor
  · rintro ⟨d', t, hd', ht⟩
    rw [h] at hd'
    cases hd'
    exact ⟨t, ht⟩
  · rintro ⟨t, ht⟩
    exact ⟨d, t, h, ht⟩

theorem SameLinks.endsInLink (hs : SameLinks s s') (h : EndsInLink s' p) : EndsInLink s p := by
  obtain ⟨d, t, hreal, hnode⟩ := h
  exact ⟨d, t, hs.realPath hreal, hs.links _ _ hnode⟩

/-- A look-up that does not follow the last link finds the same if there is none. -/
theorem locate_true_of_false (hhome : Homed s) (hlink : ¬ EndsInLink s p) (hup : p.name ≠ "..")
    (h : s.locate p false = .ok l) : s.locate p true = .ok l := by
  rw [locate_eq_ok_iff_from] at h ⊢
  rcases p.parts.eq_nil_or_concat' with hnil | ⟨xs, name, hparts⟩
  · rw [hnil, locateFrom] at h ⊢
    exact h
  · have hname : p.name = name := by rw [Path.name, hparts, List.getLast?_concat, Option.getD_some]
    have hparent : p.parent.parts = xs := by rw [Path.parent, hparts, List.dropLast_concat]
    obtain ⟨d, n, hfollows, rfl⟩ := follows_of_locateFrom_concat (hname ▸ hup) h hparts
    have hreal : s.realPath p.parent = .ok ⟨.root, d⟩ :=
      realPath_of_follows hhome (hparent ▸ hfollows)
    exact locateFrom_true_of_false h fun t ht => hlink ⟨d, t, hreal, hname ▸ ht⟩

theorem replace_eq_ok_locate (hw : s.replace p q = .ok s') :
    ∃ l l' n, s.locate p false = .ok l ∧ s.node? l = some n ∧ s.locate q false = .ok l' ∧
      q.name ≠ ".." ∧ s.node? l' ≠ some .directory ∧
      s' = if l = l' then s else (s.drop l).put l' n := by
  rw [replace] at hw
  obtain ⟨l, hlocate, hw⟩ := Except.bind_eq_ok_iff.mp hw
  split at hw
  · cases hw
  · rename_i n hnode
    obtain ⟨l', hlocate', hw⟩ := Except.bind_eq_ok_iff.mp hw
    simp only [bind, Except.bind] at hw
    split at hw
    · cases hw
    · rename_i hup
      split at hw
      · cases hw
      · rename_i hdir
        exact ⟨l, l', n, hlocate, hnode, hlocate', hup, hdir, (Except.ok.inj hw).symm⟩

/-- What moving a regular file leaves. -/
theorem replaced_touches (hhome : Homed s) (hp : ¬ EndsInLink s p) (hq : ¬ EndsInLink s q)
    (hup : p.name ≠ "..") (hfile : s.readBytes p = .ok b) (hw : s.replace p q = .ok s') :
    Touches [q, p] s s' ∧ ∃ l, s'.locate q true = .ok l ∧ s'.node? l = some (.file b) := by
  obtain ⟨l, l', n, hlocate, hnode, hlocate', hup', hdir, hs'⟩ := replace_eq_ok_locate hw
  have hpl := locate_true_of_false hhome hp hup hlocate
  have hql := locate_true_of_false hhome hq hup' hlocate'
  obtain ⟨hrealp, hl⟩ := realPath_of_locate hhome hpl
  obtain ⟨hrealq, hl'⟩ := realPath_of_locate hhome hql
  obtain ⟨m, hm, hb⟩ := readBytes_eq_ok_iff_locate.mp hfile
  rw [hpl] at hm
  cases hm
  rw [hnode] at hb
  cases hb
  split at hs'
  · rename_i heq
    subst heq hs'
    exact ⟨Touches.refl _ _, l, hql, hnode⟩
  · rename_i hne
    subst hs'
    have hplain : Plain s l := ⟨by rw [hnode]; simp, hl.not_link⟩
    have hdrop := SameLinks.drop hplain
    have hplain' : Plain (s.drop l) l' := by
      have hne' := ne_nil_of_not_directory hdir
      refine ⟨?_, fun t => ?_⟩
      · rwa [node?_drop s l hne', if_neg (Ne.symm hne)]
      · rw [node?_drop s l hne', if_neg (Ne.symm hne)]
        exact hl'.not_link t
    have hput := SameLinks.put hplain' b
    obtain ⟨hmove, hthere⟩ := moved_spec hne hnode hdir
    have hsame := hdrop.trans hput
    refine ⟨⟨hsame, fun k hk => hmove.file_iff k fun hmem => ?_⟩, l', locate_mono hsame hql, hthere⟩
    rcases List.mem_cons.mp hmem with rfl | hmem
    · exact hk q List.mem_cons_self hrealq
    · exact hk p (by simp) (List.mem_singleton.mp hmem ▸ hrealp)

end FileStore

end ModulePins
