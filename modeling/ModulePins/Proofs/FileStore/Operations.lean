import ModulePins.Proofs.Except
import ModulePins.Proofs.FileStore.Lookup

/-!
# Operations on files without links

What each operation of the store does at the spot of a direct path. Reading and asking are
equivalences, so they say as well when there is nothing to read; the changes are equations for the
new store, from which the frame follows by `node?_put` and `node?_drop`.

Making directories needs no condition. It only ever puts a directory where nothing was, whatever the
path leads through and however far it gets, so a failure is covered by the same statement.

## Main results

* `FileStore.readBytes_eq_ok_iff`, `FileStore.isFile?_eq_true_iff`
* `FileStore.writeBytes_eq_ok`, `FileStore.remove_eq_ok`, `FileStore.replace_eq_ok`
* `FileStore.extends_makeDirs`
-/

namespace ModulePins

namespace FileStore

variable {s s' : FileStore} {p q : Path} {b : ByteArray}

/-! ### Asking -/

theorem readBytes_eq_ok_iff (h : Direct s p) :
    s.readBytes p = .ok b ↔ Reaches s p ∧ s.node? (spot s p) = some (.file b) := by
  rw [readBytes]
  cases hlocate : s.locate p true with
  | error e =>
    have hnot : ¬ Reaches s p := fun hr => by
      rw [locate_of_reaches h hr] at hlocate
      cases hlocate
    simp [hnot, bind, Except.bind]
  | ok l =>
    obtain ⟨hr, rfl⟩ := (locate_eq_ok_iff h).mp hlocate
    simp only [hr, true_and, bind, Except.bind]
    cases s.node? (spot s p) with
    | none => simp [throw, throwThe, MonadExceptOf.throw]
    | some n => cases n <;> simp [throw, throwThe, MonadExceptOf.throw, pure, Except.pure]

theorem kind?_of_reaches (h : Direct s p) (hr : Reaches s p) :
    s.kind? p = .ok (s.node? (spot s p)) := by
  rw [kind?, locate_of_reaches h hr]

theorem kind?_of_not_reaches (h : Direct s p) (hr : ¬ Reaches s p) :
    s.kind? p = .ok none ∨ ∃ e, s.kind? p = .error e ∧ e.cause = .nameTooLong := by
  rw [kind?]
  cases hlocate : s.locate p true with
  | ok l => exact absurd ((locate_eq_ok_iff h).mp hlocate).1 hr
  | error e =>
    by_cases hlong : e.cause = .nameTooLong
    · exact .inr ⟨e, by simp [hlong], hlong⟩
    · exact .inl (by simp [hlong])

/-- The one reason for which a question has no answer. -/
theorem cause_of_exists?_eq_error {e : FileError} (h : s.exists? p = .error e) :
    e.cause = .nameTooLong := by
  rw [exists?, kind?] at h
  cases hlocate : s.locate p true with
  | ok l =>
    rw [hlocate] at h
    cases h
  | error e' =>
    by_cases hlong : e'.cause = .nameTooLong
    · simp only [hlocate, hlong, if_true, bind, Except.bind] at h
      cases h
      exact hlong
    · simp only [hlocate, hlong, if_false, bind, Except.bind] at h
      cases h

theorem isFile?_eq_true_iff (h : Direct s p) :
    s.isFile? p = .ok true ↔ Reaches s p ∧ ∃ b, s.node? (spot s p) = some (.file b) := by
  by_cases hr : Reaches s p
  · rw [isFile?, kind?_of_reaches h hr]
    simp only [hr, true_and, bind, Except.bind]
    cases s.node? (spot s p) with
    | none => simp [pure, Except.pure]
    | some n => cases n <;> simp [pure, Except.pure]
  · simp only [hr, false_and, iff_false]
    rw [isFile?]
    rcases kind?_of_not_reaches h hr with hk | ⟨e, hk, -⟩ <;>
      simp [hk, bind, Except.bind, pure, Except.pure]

theorem exists?_eq_true_iff (h : Direct s p) :
    s.exists? p = .ok true ↔ Reaches s p ∧ (s.node? (spot s p)).isSome := by
  by_cases hr : Reaches s p
  · rw [exists?, kind?_of_reaches h hr]
    simp [hr, bind, Except.bind, pure, Except.pure]
  · simp only [hr, false_and, iff_false]
    rw [exists?]
    rcases kind?_of_not_reaches h hr with hk | ⟨e, hk, -⟩ <;>
      simp [hk, bind, Except.bind, pure, Except.pure]

/-! ### Changing -/

theorem writeBytes_eq_ok (h : Direct s p) (hw : s.writeBytes p b = .ok s') :
    Reaches s p ∧ s.node? (spot s p) ≠ some .directory ∧ s' = s.put (spot s p) (.file b) := by
  rw [writeBytes] at hw
  obtain ⟨l, hlocate, hw⟩ := Except.bind_eq_ok_iff.mp hw
  obtain ⟨hr, rfl⟩ := (locate_eq_ok_iff h).mp hlocate
  split at hw
  · cases hw
  · rename_i hdir
    exact ⟨hr, hdir, (Except.ok.inj hw).symm⟩

theorem remove_eq_ok (h : Direct s p) (hfile : s.node? (spot s p) = some (.file b))
    (hw : s.remove p = .ok s') : s' = s.drop (spot s p) := by
  rw [remove] at hw
  obtain ⟨l, hlocate, hw⟩ := Except.bind_eq_ok_iff.mp hw
  obtain ⟨-, rfl⟩ := (locate_eq_ok_iff h).mp hlocate
  rw [hfile] at hw
  exact (Except.ok.inj hw).symm

theorem replace_eq_ok (hp : Direct s p) (hq : Direct s q) (hw : s.replace p q = .ok s') :
    Reaches s p ∧ Reaches s q ∧ s.node? (spot s q) ≠ some .directory ∧
      ∃ n, s.node? (spot s p) = some n ∧
        s' = if spot s p = spot s q then s else (s.drop (spot s p)).put (spot s q) n := by
  rw [replace] at hw
  obtain ⟨l, hlocate, hw⟩ := Except.bind_eq_ok_iff.mp hw
  obtain ⟨hr, rfl⟩ := (locate_eq_ok_iff hp).mp hlocate
  split at hw
  · cases hw
  · rename_i n hnode
    obtain ⟨l', hlocate', hw⟩ := Except.bind_eq_ok_iff.mp hw
    obtain ⟨hr', rfl⟩ := (locate_eq_ok_iff hq).mp hlocate'
    simp only [bind, Except.bind] at hw
    split at hw
    · cases hw
    · split at hw
      · cases hw
      · rename_i hdir
        exact ⟨hr, hr', hdir, n, hnode, (Except.ok.inj hw).symm⟩

/-- What moving a regular file to another place leaves. -/
theorem moved_spec {source target : Location} (hne : source ≠ target)
    (hfrom : s.node? source = some (.file b)) (hto : s.node? target ≠ some .directory) :
    ChangesOnly [target, source] s ((s.drop source).put target (.file b)) ∧
      ((s.drop source).put target (.file b)).node? target = some (.file b) := by
  have hsource : s.node? source ≠ some .directory := by
    rw [hfrom]
    exact fun h => by cases h
  have hto' : (s.drop source).node? target ≠ some .directory := by
    rwa [node?_drop s source (ne_nil_of_not_directory hto), if_neg (Ne.symm hne)]
  refine ⟨?_, node?_put_self hto' _⟩
  exact ((ChangesOnly.drop hsource).mono (by simp)).trans ((ChangesOnly.put hto' b).mono (by simp))

/-- What replacing a file by a regular file leaves. -/
theorem replaced_spec (hp : Direct s p) (hq : Direct s q)
    (hfile : s.node? (spot s p) = some (.file b)) (hw : s.replace p q = .ok s') :
    ChangesOnly [spot s q, spot s p] s s' ∧ Reaches s' q ∧
      s'.node? (spot s q) = some (.file b) := by
  obtain ⟨-, hr, hnotDir, n, hn, hs'⟩ := replace_eq_ok hp hq hw
  rw [hfile] at hn
  cases hn
  split at hs'
  · rename_i hsame
    rw [hs']
    exact ⟨ChangesOnly.refl _ _, hr, hsame ▸ hfile⟩
  · rename_i hne
    obtain ⟨hmove, hthere⟩ := moved_spec hne hfile hnotDir
    rw [hs']
    exact ⟨hmove, hr.mono hmove.keeps, hthere⟩

/-! ### Making directories -/

theorem extends_makeDir (h : s.makeDir p = .ok s') : Extends s s' := by
  rw [makeDir] at h
  obtain ⟨l, -, h⟩ := Except.bind_eq_ok_iff.mp h
  split at h
  · cases h
  · rename_i hnone
    cases h
    exact Extends.put_directory hnone

theorem extends_makeDirsFrom (s : FileStore) (p : Path) (depth : ℕ) :
    Extends s (makeDirsFrom s p depth).2 := by
  induction depth generalizing p with
  | zero => exact Extends.refl s
  | succ depth ih =>
    rw [makeDirsFrom]
    split
    · rename_i s' hmake
      exact extends_makeDir hmake
    · rename_i e hmake
      have hparent := ih p.parent
      split
      · split
        · exact Extends.refl s
        · split
          · rename_i heq
            rwa [heq] at hparent
          · rename_i s' heq
            rw [heq] at hparent
            split
            · rename_i s'' hmake'
              exact hparent.trans (extends_makeDir hmake')
            · exact hparent
      · exact Extends.refl s

/-- Making directories makes directories only, whether it gets to the end or not. -/
theorem extends_makeDirs (s : FileStore) (p : Path) : Extends s (s.makeDirs p).2 :=
  extends_makeDirsFrom s p _

theorem extends_of_makeDirs {dirs : FileStore} {made : Except FileError Unit}
    (h : s.makeDirs p = (made, dirs)) : Extends s dirs := by
  have hmade := extends_makeDirs s p
  rwa [h] at hmade

/-- What writing a file leaves, behind making directories. -/
theorem written_spec {dirs files : FileStore} (h : Direct s p) (hdirs : Extends s dirs)
    (hw : dirs.writeBytes p b = .ok files) :
    ChangesOnly [spot s p] s files ∧ Reaches files p ∧
      files.node? (spot s p) = some (.file b) := by
  obtain ⟨hr, hnotDir, rfl⟩ := writeBytes_eq_ok (h.mono hdirs.keeps) hw
  rw [spot_eq hdirs.keeps.current] at hnotDir ⊢
  have hput := ChangesOnly.put hnotDir b
  exact ⟨(hdirs.changesOnly _).trans hput, hr.mono hput.keeps, node?_put_self hnotDir _⟩

end FileStore

end ModulePins
