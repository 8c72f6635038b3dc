import ModulePins.Proofs.Emission.Reading
import ModulePins.Proofs.FileStore.Resolved

/-!
# Saving through links

What saving a cache leaves when the cache file is reached through links, as long as the file and its
temporary file are no links themselves: a temporary file that is a link would be written through, and
then the link would be moved.

`InStep` relates a cache to its file when nothing is unsaved. It is stated with digests, since that
is all that two readings of a file have in common, and it is what makes `Finds` hold after saving
whether or not there was anything to save.

## Main definitions

* `Cache.Finds` — whoever reads a cache file finds these digests
* `Cache.InStep` — a cache without changes knows what its file says

## Main results

* `Cache.exec_save_touches` — saving touches the cache file and its temporary file, and then the file
  says what the cache knows
-/

namespace ModulePins

namespace Cache

open FileStore ModulePins.Task

variable {c c' : Cache} {S S' : Session} {s : CacheState} {path : Path} {l : Location}
  {bytes : ByteArray} {now : Stamp} {files files' : FileStore} {ds : List (String × String)}

/-! ### Cache files -/

theorem exists?_of_locate (h : files.locate path true = .ok l) :
    files.exists? path = .ok (files.node? l).isSome := by
  rw [exists?, kind?, h]
  rfl

/-- A cache file that is there is read. -/
theorem stored_eq_decode_of_locate (h : files.locate path true = .ok l)
    (hb : files.node? l = some (.file bytes)) (now : Stamp) :
    stored now files (some path) = decode now bytes := by
  rw [stored, exists?_of_locate h, hb]
  simp only [Option.isSome_some, readBytes_eq_ok_iff_locate.mpr ⟨l, h, hb⟩]

/-- Either nothing is found where the cache file should be, or the file is read. -/
theorem stored_cases (now : Stamp) (files : FileStore) (path : Path) :
    stored now files (some path) = .ok .empty ∨
      (∃ e, stored now files (some path) = .error (.file e)) ∨
      ∃ l b, files.locate path true = .ok l ∧ files.node? l = some (.file b) ∧
        stored now files (some path) = decode now b := by
  rw [stored]
  split
  · exact .inr (.inl ⟨_, rfl⟩)
  · exact .inl rfl
  · split
    · exact .inl rfl
    · rename_i hread
      obtain ⟨l, hl, hb⟩ := readBytes_eq_ok_iff_locate.mp hread
      exact .inr (.inr ⟨l, _, hl, hb, rfl⟩)

/-- Where there is no cache file, nothing is known. -/
theorem stored_of_no_file (hhome : Homed files) {path? : Option Path}
    (hno : ∀ path ∈ path?, ∀ l, files.realPath path = .ok ⟨.root, l⟩ →
      ∀ b, files.node? l ≠ some (.file b)) (now : Stamp) :
    stored now files path? = .ok .empty ∨ ∃ e, stored now files path? = .error (.file e) := by
  cases path? with
  | none => exact .inl rfl
  | some path =>
    rcases stored_cases now files path with hempty | herror | ⟨l, b, hl, hb, -⟩
    · exact .inl hempty
    · exact .inr herror
    · exact absurd hb (hno path rfl l (realPath_of_locate hhome hl).1 b)

/-- Whoever reads the cache file finds these digests. -/
def Finds (files : FileStore) (path : Path) (ds : List (String × String)) : Prop :=
  ∀ now, ∃ s, stored now files (some path) = .ok s ∧ s.digests = ds

theorem finds_of_stored (h : stored now files (some path) = .ok s) : Finds files path s.digests :=
  fun now' => (stored_time h now').imp fun _ hs => ⟨hs.1, hs.2.digests⟩

/-- Digests that are found stand in a file, unless there are none. -/
theorem Finds.exists_file (h : Finds files path ds) (hne : ds ≠ []) :
    ∃ l b, files.locate path true = .ok l ∧ files.node? l = some (.file b) := by
  obtain ⟨s, hs, rfl⟩ := h Stamp.epoch
  rcases stored_cases Stamp.epoch files path with hempty | ⟨e, he⟩ | ⟨l, b, hl, hb, -⟩
  · rw [hs] at hempty
    cases hempty
    exact absurd rfl hne
  · rw [hs] at he
    cases he
  · exact ⟨l, b, hl, hb⟩

/-- Digests are found as long as the cache file is there as it is. -/
theorem Finds.mono (h : Finds files path ds) (hne : ds ≠ []) (hlinks : SameLinks files files')
    (hfile : ∀ l b, files.locate path true = .ok l → files.node? l = some (.file b) →
      files'.node? l = some (.file b)) : Finds files' path ds := by
  obtain ⟨l, b, hl, hb⟩ := h.exists_file hne
  intro now
  obtain ⟨s, hs, hdigests⟩ := h now
  rw [stored_eq_decode_of_locate hl hb] at hs
  exact ⟨s, (stored_eq_decode_of_locate (locate_mono hlinks hl) (hfile l b hl hb) now).trans hs,
    hdigests⟩

/-- When nothing is unsaved, the cache file says what the cache knows. -/
def InStep (c : Cache) (files : FileStore) : Prop :=
  c.changed = false → ∀ s ∈ c.state, ∀ path ∈ c.path, Finds files path s.digests

theorem InStep.read (h : InStep c S.files) (hread : AtMostRead S c c') : InStep c' S.files := by
  rcases hread with rfl | ⟨hnone, s, hs, rfl⟩
  · exact h
  · intro _ s' hs' path hp
    cases hs'
    have hp' : c.path = some path := hp
    rw [hp'] at hs
    exact finds_of_stored hs

theorem inStep_opened (path? : Option Path) (files : FileStore) : InStep (opened path?) files :=
  fun _ s hs => by cases hs

/-! ### Saving -/

/-- The files that saving may touch. -/
def places (c : Cache) : List Path := c.path.toList.flatMap fun path => [path, temporary path]

theorem name_temporary (path : Path) : (temporary path).name ≠ ".." := by
  rw [temporary, Path.withSuffix, Path.name, List.getLast?_concat, Option.getD_some]
  intro h
  have hlength := congrArg String.length h
  rw [String.length_append] at hlength
  have hsuffix : ".tmp".length = 4 := rfl
  have hdots : "..".length = 2 := rfl
  omega

theorem parent_temporary (path : Path) : (temporary path).parent = path.parent := by
  rw [temporary, Path.withSuffix, Path.parent, List.dropLast_concat, Path.parent]

theorem parts_temporary (path : Path) : (temporary path).parts ≠ [] := by
  rw [temporary, Path.withSuffix]
  simp

/-- Replacing a file fails because of a file operation only. -/
theorem Replaces.ofFiles {text : String} {r : Except Fault Unit} (h : Replaces path text files r files') :
    ∀ f, r = .error f → f.OfFiles := by
  rintro f rfl
  cases h with
  | unwritten e | unmoved e => exact .inl ⟨e, rfl⟩

/-- Replacing a file touches the file and its temporary file only, and leaves the text there. -/
theorem exec_replaceFile_touches (hhome : Homed S.files) (hpath : ¬ EndsInLink S.files path)
    (htemp : ¬ EndsInLink S.files (temporary path)) (text : String) :
    ∃ r files, exec (replaceFile path text) S = (r, { S with files }) ∧
      Touches [path, temporary path] S.files files ∧ (∀ f, r = .error f → f.OfFiles) ∧
      (r = .ok () → ∃ l, files.locate path true = .ok l ∧
        files.node? l = some (.file text.toUTF8)) := by
  obtain ⟨r, files, hexec, hends⟩ := exec_replaceFile_ends path text S
  suffices hfiles : Touches [path, temporary path] S.files files ∧ (r = .ok () →
      ∃ l, files.locate path true = .ok l ∧ files.node? l = some (.file text.toUTF8)) from
    ⟨r, files, hexec, hfiles.1, hends.ofFiles, hfiles.2⟩
  cases hends with
  | unwritten e hdirs => exact ⟨hdirs.touches _, by simp⟩
  | unmoved e hmade hwrite =>
    exact ⟨(written_touches hhome (extends_of_makeDirs hmade) hwrite).1.mono (by simp), by simp⟩
  | replaced hmade hwrite hreplace =>
    obtain ⟨hwritten, l, -, -, hlocate, hnode⟩ :=
      written_touches hhome (extends_of_makeDirs hmade) hwrite
    have hlinks := hwritten.toSameLinks
    obtain ⟨hmove, hthere⟩ := replaced_touches (hhome.mono hlinks)
      (mt hlinks.endsInLink htemp) (mt hlinks.endsInLink hpath) (name_temporary path)
      (readBytes_eq_ok_iff_locate.mpr ⟨l, hlocate, hnode⟩) hreplace
    exact ⟨(hwritten.trans hmove).mono (by simp), fun _ => hthere⟩

/-- Saving that comes to its end. -/
theorem exec_save_ok {dirs written moved : FileStore} (hpath : c.path = some path)
    (hstate : c.state = some s) (hchanged : c.changed = true)
    (hmade : S.files.makeDirs path.parent = (.ok (), dirs))
    (hwrote : dirs.writeBytes (temporary path) (s.toJson.toText .ascii).toUTF8 = .ok written)
    (hmoved : written.replace (temporary path) path = .ok moved) :
    ∃ log, exec save (c, S) =
      (.ok (), ({ c with changed := false }, { S with files := moved, log })) := by
  have hreplace : exec (replaceFile path (s.toJson.toText .ascii)) S =
      (.ok (), { S with files := moved }) := by
    rw [replaceFile, exec_bind, Session.exec_makeDirs, hmade]
    simp only [Except.mapError_ok]
    rw [exec_bind_ok (Session.exec_change_ok (S := { S with files := dirs }) hwrote)]
    exact Session.exec_change_ok (S := { S with files := written }) hmoved
  rw [save, exec_bind, exec_part]
  dsimp only
  rw [hstate, hpath]
  dsimp only
  rw [if_pos hchanged, exec_bind, exec_session, hreplace]
  exact ⟨_, rfl⟩

/-- Saving changes neither what a cache knows nor where it is kept. -/
theorem save_keeps (c : Cache) (S : Session) :
    (exec save (c, S)).2.1.path = c.path ∧ (exec save (c, S)).2.1.state = c.state := by
  rw [save, exec_bind, exec_part]
  dsimp only
  split
  · rename_i s path hstate hfile
    split
    · rw [exec_bind, exec_session]
      cases (exec (replaceFile path (s.toJson.toText .ascii)) S).1 <;> exact ⟨rfl, rfl⟩
    · exact ⟨rfl, rfl⟩
  · exact ⟨rfl, rfl⟩

/-- **Saving.** Only the cache file and its temporary file are touched, saving fails because of a
file operation only, and if it does not fail the cache file says what the cache knows. -/
theorem exec_save_touches (hhome : Homed S.files)
    (hlink : ∀ path ∈ c.path, ¬ EndsInLink S.files path ∧ ¬ EndsInLink S.files (temporary path))
    (hsound : ∀ s ∈ c.state, s.Sound) :
    ∃ r c' files log, exec save (c, S) = (r, (c', { S with files, log })) ∧
      Touches c.places S.files files ∧ (∀ f, r = .error f → f.OfFiles) ∧
      (r = .ok () → InStep c S.files → ∀ path ∈ c.path, ∀ s ∈ c.state, Finds files path s.digests) := by
  rw [save, exec_bind, exec_part]
  dsimp only
  split
  · rename_i s path hstate hfile
    split
    · obtain ⟨hpath, htemp⟩ := hlink path hfile
      obtain ⟨r, files, hexec, htouches, hfail, hdone⟩ :=
        exec_replaceFile_touches hhome hpath htemp (s.toJson.toText .ascii)
      have hplaces : Touches c.places S.files files := htouches.mono (by simp [places, hfile])
      rw [exec_bind, exec_session, hexec]
      cases r with
      | error f =>
        refine ⟨_, c, files, S.log, rfl, hplaces, fun f' hf' => hfail f' hf', by simp⟩
      | ok u =>
        refine ⟨_, { c with changed := false }, files, _, rfl, hplaces, by simp,
          fun _ _ path' hp s' hs' now => ?_⟩
        rw [hfile] at hp
        cases hp
        rw [hstate] at hs'
        cases hs'
        obtain ⟨l, hl, hb⟩ := hdone rfl
        exact ⟨s, (stored_eq_decode_of_locate hl hb now).trans (decode_toText (hsound s hstate) now),
          rfl⟩
    · rename_i hclean
      exact ⟨_, c, S.files, _, rfl, Touches.refl _ _, by simp,
        fun _ hstep path' hp s' hs' => hstep (by simpa using hclean) s' hs' path' hp⟩
  · rename_i hnone
    refine ⟨_, c, S.files, S.log, rfl, Touches.refl _ _, by simp, fun _ _ path hp s hs => ?_⟩
    exact absurd hp (hnone s path hs)

end Cache

end ModulePins
