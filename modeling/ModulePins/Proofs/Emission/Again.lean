import ModulePins.Proofs.Emission.Chain

/-!
# Emitting for the first time, and again

A chain that goes through a cache which knows of none of its files writes all documents, whatever
their files held before: no digest is compared. When the cache has been saved, the same documents can
be emitted again. Without force each of them is known to be there, and nothing changes; with force
each is written over itself, and so no file changes either, until the cache is saved, which can be
done again in the place where it has been done once.

## Main definitions

* `Emission.Unknown` — a cache that knows of none of the files
* `Cache.Replaceable` — a cache file that can be written

## Main results

* `Emission.basis_unknown`, `Emission.Unknown.changed` — the first time
* `Emission.Chain.upToDate`, `Emission.Chain.rewritten` — again, without force and with it
* `Cache.replaceable_of_replaced` — a file that has been replaced can be replaced
-/

namespace ModulePins

open ModulePins.Task FileStore

/-! ### Saving once and again -/

namespace Cache

variable {c c' : Cache} {S S' : Session} {s : CacheState} {path : Path} {text : String}
  {files dirs written : FileStore} {b : ByteArray}

/-- The file can be written by way of its temporary file. -/
structure Replaceable (files : FileStore) (path : Path) : Prop where
  above : files.isDir? path.parent = .ok true
  temporary : ∃ l, files.locate (temporary path) true = .ok l ∧
    files.locate (temporary path) false = .ok l ∧ files.node? l ≠ some .directory
  file : ∃ l, files.locate path false = .ok l ∧ files.node? l ≠ some .directory
  proper : path.name ≠ ".."

/-- **A file that has been replaced can be replaced.** -/
theorem replaceable_of_replaced (hhome : Homed written) (hsolid : Solid written written.current)
    (htemp : ¬ EndsInLink written (temporary path)) (hpath : ¬ EndsInLink written path)
    (hread : written.readBytes (temporary path) = .ok b)
    (hmoved : written.replace (temporary path) path = .ok files) : Replaceable files path := by
  obtain ⟨l, l', n, hl, hn, hl', hproper, hdir, hfiles⟩ := replace_eq_ok_locate hmoved
  obtain ⟨htouches, -⟩ := replaced_touches hhome htemp hpath (name_temporary path) hread hmoved
  have hlinks := htouches.toSameLinks
  have hthrough := locate_true_of_false hhome htemp (name_temporary path) hl
  have hfile : written.node? l = some (.file b) := by
    obtain ⟨m, hm, hb⟩ := readBytes_eq_ok_iff_locate.mp hread
    rw [hthrough] at hm
    cases hm
    exact hb
  rw [hfile] at hn
  cases hn
  have hl₀ : l ≠ [] := ne_nil_of_not_directory (by rw [hfile]; simp)
  have hl'₀ : l' ≠ [] := ne_nil_of_not_directory hdir
  have hnodes : files.node? l ≠ some .directory ∧ files.node? l' ≠ some .directory := by
    rw [hfiles]
    split
    · rename_i heq
      exact ⟨heq ▸ hdir, hdir⟩
    · rename_i hne
      rw [node?_put _ _ _ hl₀, node?_put _ _ _ hl'₀, if_neg hne, if_pos rfl, node?_drop _ _ hl₀,
        if_pos rfl]
      simp
  obtain ⟨above, habove, hsolid'⟩ := directory_above (hlinks.current ▸ hsolid.mono hlinks.toKeeps)
    (parts_temporary path) (name_temporary path) (locate_mono hlinks hthrough)
  rw [parent_temporary] at habove
  exact {
    above := isDir?_eq_true_iff_locate.mpr ⟨above, habove, hsolid'.directory⟩
    temporary := ⟨l, locate_mono hlinks hthrough, locate_mono hlinks hl, hnodes.1⟩
    file := ⟨l', locate_mono hlinks hl', hnodes.2⟩
    proper := hproper }

theorem Replaceable.exec_replaceFile (h : Replaceable S.files path) (hhome : Homed S.files)
    (text : String) : ∃ files, exec (replaceFile path text) S = (.ok (), { S with files }) := by
  obtain ⟨l, hthrough, hl, hdir⟩ := h.temporary
  obtain ⟨l', hl', hdir'⟩ := h.file
  have hplain : Plain S.files l := ⟨hdir, (realPath_of_locate hhome hthrough).2.not_link⟩
  have hput := SameLinks.put hplain text.toUTF8
  have hwrite : S.files.writeBytes (Cache.temporary path) text.toUTF8 =
      .ok (S.files.put l (.file text.toUTF8)) := by
    rw [writeBytes, hthrough]
    simp only [bind, Except.bind]
    cases hnode : S.files.node? l with
    | none => rfl
    | some n =>
      cases n with
      | directory => exact absurd hnode hdir
      | file b => rfl
      | link t => rfl
  have hnode' : (S.files.put l (.file text.toUTF8)).node? l' ≠ some .directory := by
    rw [node?_put _ _ _ (ne_nil_of_not_directory hdir')]
    split
    · simp
    · exact hdir'
  obtain ⟨files, hreplace⟩ : ∃ files, (S.files.put l (.file text.toUTF8)).replace
      (Cache.temporary path) path = .ok files := by
    rw [replace, locate_mono hput hl]
    simp only [bind, Except.bind, node?_put_self hdir, locate_mono hput hl', h.proper, if_false]
    cases hnode : (S.files.put l (.file text.toUTF8)).node? l' with
    | none => exact ⟨_, rfl⟩
    | some n =>
      cases n with
      | directory => exact absurd hnode hnode'
      | file b => exact ⟨_, rfl⟩
      | link t => exact ⟨_, rfl⟩
  refine ⟨files, ?_⟩
  rw [replaceFile, exec_bind, Session.exec_makeDirs, makeDirs_of_isDir h.above]
  simp only [Except.mapError_ok]
  rw [exec_bind_ok (Session.exec_change_ok (S := { S with files := S.files }) hwrite)]
  exact Session.exec_change_ok (S := { S with files := _ }) hreplace

/-- What has happened when a file has been replaced. -/
theorem replaced_of_exec (h : exec (replaceFile path text) S = (.ok (), S')) :
    ∃ dirs written, S.files.makeDirs path.parent = (.ok (), dirs) ∧
      dirs.writeBytes (temporary path) text.toUTF8 = .ok written ∧
      written.replace (temporary path) path = .ok S'.files := by
  obtain ⟨r, files, hexec, hends⟩ := exec_replaceFile_ends path text S
  rw [h] at hexec
  cases hexec
  cases hends with
  | replaced hmade hwrite hreplace => exact ⟨_, _, hmade, hwrite, hreplace⟩

/-- What has happened when a cache with changes has been saved. -/
theorem saved_of_exec (hpath : c.path = some path) (hstate : c.state = some s)
    (hchanged : c.changed = true) (h : exec save (c, S) = (.ok (), (c', S'))) :
    ∃ dirs written, S.files.makeDirs path.parent = (.ok (), dirs) ∧
      dirs.writeBytes (temporary path) (s.toJson.toText .ascii).toUTF8 = .ok written ∧
      written.replace (temporary path) path = .ok S'.files := by
  rw [save, exec_bind, exec_part] at h
  dsimp only at h
  rw [hstate, hpath] at h
  dsimp only at h
  rw [if_pos hchanged, exec_bind, exec_session] at h
  rcases hreplace : exec (replaceFile path (s.toJson.toText .ascii)) S with ⟨r, S₁⟩
  rw [hreplace] at h
  cases r with
  | error f => cases h
  | ok u =>
    cases h
    have hreplaced := replaced_of_exec hreplace
    exact hreplaced

/-- A cache that has not changed is not saved. -/
theorem exec_save_unchanged (h : c.changed = false) (S : Session) :
    ∃ log, exec save (c, S) = (.ok (), (c, { S with log })) := by
  rw [save, exec_bind, exec_part]
  dsimp only
  split
  · rw [if_neg (by simp [h])]
    exact ⟨_, rfl⟩
  · exact ⟨S.log, rfl⟩

/-- A cache that can be written is saved. -/
theorem Replaceable.exec_save (hhome : Homed S.files)
    (h : ∀ path ∈ c.path, Replaceable S.files path) : ∃ st, exec save (c, S) = (.ok (), st) := by
  rw [save, exec_bind, exec_part]
  dsimp only
  split
  · rename_i s path hstate hpath
    split
    · obtain ⟨files, hexec⟩ := (h path hpath).exec_replaceFile hhome (s.toJson.toText .ascii)
      rw [exec_bind, exec_session, hexec]
      exact ⟨_, rfl⟩
    · exact ⟨_, rfl⟩
  · exact ⟨_, rfl⟩

end Cache

namespace Emission

open Cache

variable {force : Bool} {c c' c₁ : Cache} {S S' S₁ : Session} {o q : Path} {e : Emission}
  {d : String} {coordinate : Coordinate} {j : Job} {js : List Job} {s : CacheState}
  {r : Except Fault (List Emission)} {files : FileStore}

/-! ### The first time -/

/-- The files of a series are apart from each other, and the cache knows of none of them. -/
structure Unknown (js : List Job) (c : Cache) (S : Session) : Prop where
  homed : Homed S.files
  apart : js.Pairwise fun j k => Apart S.files j.output k.output
  blank : ∀ s ∈ c.state, ∀ j ∈ js, ∀ q, S.files.realPath j.output = .ok q →
    s.entry? q.toString = none
  /-- What has not been read is not there. -/
  empty : c.state = none → ∀ path ∈ c.path, ∀ l, S.files.realPath path = .ok ⟨.root, l⟩ →
    ∀ b, S.files.node? l ≠ some (.file b)
  cacheApart : ∀ j ∈ js, ∀ path ∈ c.path, Apart S.files j.output path

theorem Unknown.known (h : Unknown js c S) :
    (∃ s, known c S = .ok s ∧ ∀ j ∈ js, ∀ q, S.files.realPath j.output = .ok q →
      s.entry? q.toString = none) ∨ ∃ e, known c S = .error (.file e) := by
  cases hstate : c.state with
  | some s => exact .inl ⟨s, known_of_state hstate S, h.blank s hstate⟩
  | none =>
    rw [Cache.known, hstate]
    rcases stored_of_no_file h.homed (h.empty hstate) S.now with hempty | herror
    · exact .inl ⟨.empty, hempty, fun _ _ _ _ => rfl⟩
    · exact .inr herror

theorem Unknown.blank_of_known (h : Unknown js c S) (hs : Cache.known c S = .ok s) :
    ∀ j ∈ js, ∀ q, S.files.realPath j.output = .ok q → s.entry? q.toString = none := by
  rcases h.known with ⟨s', hs', hblank⟩ | ⟨e, he⟩
  · rw [hs] at hs'
    cases hs'
    exact hblank
  · rw [hs] at he
    cases he

/-- Writing one of the files does not change what is known. -/
theorem Unknown.write (h : Unknown (j :: js) c S) (htouches : Touches [j.output] S.files S₁.files) :
    Unknown js c S₁ where
  homed := h.homed.mono htouches.toSameLinks
  apart := (List.pairwise_cons.mp h.apart).2.imp fun hjk => hjk.mono htouches.toSameLinks
  blank s hs k hk q hq :=
    h.blank s hs k (List.mem_cons_of_mem _ hk) q (htouches.toSameLinks.realPath hq)
  empty hstate path hpath l hl b hb := by
    have hl' := htouches.toSameLinks.realPath hl
    have hapart := h.cacheApart j List.mem_cons_self path hpath
    exact h.empty hstate path hpath l hl' b
      ((file_iff_of_apart htouches (by simpa using hapart) hl').mp hb)
  cacheApart k hk path hpath :=
    (h.cacheApart k (List.mem_cons_of_mem _ hk) path hpath).mono htouches.toSameLinks

theorem Unknown.congr (h : Unknown js c S) (hfiles : S₁.files = S.files) : Unknown js c S₁ where
  homed := hfiles ▸ h.homed
  apart := hfiles ▸ h.apart
  blank := hfiles ▸ h.blank
  empty := hfiles ▸ h.empty
  cacheApart := hfiles ▸ h.cacheApart

theorem Unknown.read (h : Unknown js c S) (hread : AtMostRead S c c') : Unknown js c' S where
  homed := h.homed
  apart := h.apart
  blank s hs := h.blank_of_known (by rw [← known_of_atMostRead hread, known_of_state hs])
  empty hstate := by
    rcases hread with rfl | ⟨-, s, -, rfl⟩
    · exact h.empty hstate
    · cases hstate
  cacheApart := by
    rw [hread.path_eq]
    exact h.cacheApart

theorem Unknown.not_vouches (h : Unknown (j :: js) c S) (hash : String) :
    ¬ Vouches c S j.output hash := by
  rintro ⟨s, q, e, hs, hq, he, -⟩
  rw [h.blank_of_known hs j List.mem_cons_self q hq] at he
  cases he

/-- A document for a file of which nothing is known is written and noted, where nothing is known of
the other files. -/
theorem Unknown.written (h : Unknown (j :: js) c S)
    (hends : Ends force d j.output j.coordinate q c S (.ok e) c₁ files) :
    ∃ (s : CacheState) (dirs : FileStore), Extends S.files dirs ∧
      dirs.writeBytes j.output d.toUTF8 = .ok files ∧
      c₁ = ⟨c.path, some (s.record q.toString ⟨Digest.ofText d, S.now⟩), true⟩ ∧
      ∀ k ∈ js, ∀ q, files.realPath k.output = .ok q → s.entry? q.toString = none := by
  have htouches := hends.touches h.homed
  cases hends with
  | upToDate _ hvouched => exact absurd hvouched (h.not_vouches _)
  | written _ hread _ hmade hwrote hstate =>
    have hunknown : Unknown js _ { S with files } := (h.read hread).write htouches
    exact ⟨_, _, hmade, hwrote, rfl, hunknown.blank_of_known hstate⟩

/-- **A cache that knows of no file carries a series.** -/
theorem basis_unknown (force : Bool) : Basis force Unknown where
  homed h := h.homed
  apart h := h.apart
  congr h hfiles _ := h.congr hfiles
  ofFiles := by
    intro j js c c' S d q f files h hends
    have htouches := hends.touches h.homed
    cases hends with
    | refused _ hcause =>
      refine hcause.elim id fun hf => ?_
      rcases h.known with ⟨s, hs, -⟩ | ⟨e, he⟩
      · rw [hs] at hf
        cases hf
      · rw [he] at hf
        cases hf
        exact .inl ⟨e, rfl⟩
    | unnoted _ _ _ _ hunread hunreadable =>
      have hfiles : Unknown js c { S with files } := h.write htouches
      rcases stored_of_no_file hfiles.homed (hfiles.empty hunread) S.now with hempty | ⟨e, he⟩
      · rw [hempty] at hunreadable
        cases hunreadable
      · rw [he] at hunreadable
        cases hunreadable
        exact .inl ⟨e, rfl⟩
  published := by
    intro j js c c₁ S S₁ d q e h htext hkey hends
    obtain ⟨s, dirs, hmade, hwrote, rfl, -⟩ := h.written hends
    exact ⟨published_of_written h.homed hkey hmade hwrote, by simp⟩
  next := by
    intro j js c c₁ S S₁ d q e h hkey hends htime
    have hlinks := (hends.touches h.homed).toSameLinks
    obtain ⟨hapart, hrest⟩ := List.pairwise_cons.mp h.apart
    obtain ⟨s, dirs, hmade, hwrote, rfl, hblank⟩ := h.written hends
    refine ⟨h.homed.mono hlinks, hrest.imp fun hjk => hjk.mono hlinks, fun s' hs' k hk p hp => ?_,
      (fun hnone => by cases hnone), fun k hk path hpath =>
        (h.cacheApart k (List.mem_cons_of_mem _ hk) path hpath).mono hlinks⟩
    cases hs'
    have hne : q.toString ≠ p.toString :=
      hapart k hk q p (hlinks.realPath (hkey _ _ hmade hwrote)) (hlinks.realPath hp)
    have hnone := hblank k hk p hp
    rw [CacheState.entry?, Option.map_eq_none_iff] at hnone ⊢
    rw [CacheState.record, Keyed.find?_put, if_neg hne]
    exact hnone

theorem eq_of_atMostRead (h : AtMostRead S c c') (hstate : c.state ≠ none) : c' = c := by
  rcases h with rfl | ⟨hnone, -⟩
  · rfl
  · exact absurd hnone hstate

/-- A cache with changes has changes until it is saved. -/
theorem Series.changed (h : Series force js c S r c' S') (hstate : c.state ≠ none)
    (hchanged : c.changed = true) : c'.changed = true := by
  have hread {c c' : Cache} {S : Session} (h : AtMostRead S c c') (hstate : c.state ≠ none)
      (hchanged : c.changed = true) : c'.changed = true :=
    (eq_of_atMostRead h hstate).symm ▸ hchanged
  induction h with
  | done => exact hchanged
  | stuck => exact hchanged
  | @emitted j js c c₁ c' S S₁ S' d q e r _ _ hends _ _ ih =>
    refine ih (hends.state_ne_none hstate) ?_
    generalize S₁.files = files at hends
    cases hends with
    | upToDate _ _ hatMost => exact hread hatMost hstate hchanged
    | written => rfl
  | failed _ hends =>
    cases hends with
    | refused _ _ hatMost => exact hread hatMost hstate hchanged
    | unnoted => exact hchanged
  | quiet _ _ _ ih => exact ih hstate hchanged

/-- A cache that knew of no file has changes when documents have been emitted. -/
theorem Unknown.changed (hunknown : Unknown js c S) (h : Series force js c S r c' S') (hne : js ≠ [])
    (hok : ∃ es, r = .ok es) : c'.changed = true := by
  induction h with
  | done => exact absurd rfl hne
  | stuck =>
    obtain ⟨es, hes⟩ := hok
    cases hes
  | emitted _ _ hends _ hrest =>
    obtain ⟨s, dirs, -, -, rfl, -⟩ := hunknown.written hends
    exact hrest.changed (by simp) rfl
  | failed =>
    obtain ⟨es, hes⟩ := hok
    cases hes
  | quiet hfiles _ _ ih => exact ih (hunknown.congr hfiles) hne hok

/-- **Emitting for the first time.** All documents are published. -/
theorem Unknown.emitted {es : List Emission} (hunknown : Unknown js c S) (hstep : InStep c S.files)
    (h : Chain force js c S (.ok es) c' S') (hne : js ≠ []) :
    Touches (js.map Job.output) S.files S'.files ∧ InStep c' S'.files ∧ c'.changed = true ∧
      c'.state ≠ none ∧ ∀ j ∈ js, ∃ d, j.text = .ok d ∧ Published d j.output c' S' := by
  have hseries := h.series hunknown.homed
  obtain ⟨before, rest, rfl, htouches, hstep', hstate, hpublished, hend⟩ :=
    hseries.spec (basis_unknown force) hunknown (fun _ hr => by cases hr) hstep
  rcases hend with ⟨rfl, -⟩ | ⟨_, _, _, -, -, hr⟩
  · rw [List.append_nil] at hne hseries hunknown ⊢
    exact ⟨htouches, hstep', hunknown.changed hseries hne ⟨es, rfl⟩, hstate hne, hpublished⟩
  · cases hr

/-! ### Again -/

/-- Emitting a document that is published leaves it alone. -/
theorem Published.upToDate {r : Except Fault Emission} (h : Published d o c S)
    (hhome : Homed S.files)
    (hrun : exec (emit false d o coordinate) (c, S) = (r, (c', S'))) :
    r = .ok (outcome .upToDate d o coordinate) ∧ S'.files = S.files ∧ AtMostRead S c c' := by
  obtain ⟨hends, -⟩ := ends_of_run hhome hrun
  generalize S'.files = files at hends
  have hnot : ¬ Due false d o c S := fun hdue => hdue ⟨rfl, h.vouches⟩
  cases hends with
  | upToDate _ _ hread => exact ⟨rfl, rfl, hread⟩
  | written hdue => exact absurd hdue hnot
  | refused hdue => exact absurd hdue hnot
  | unnoted hdue => exact absurd hdue hnot

/-- **Emitting again, without force.** All documents are left alone. -/
theorem Chain.upToDate (h : Chain false js c S r c' S') (hhome : Homed S.files)
    (hpublished : ∀ j ∈ js, ∃ d, j.text = .ok d ∧ Published d j.output c S) :
    (∃ es, r = .ok es ∧ List.Forall₂ (fun j e => ∃ d, j.text = .ok d ∧
      e = outcome .upToDate d j.output j.coordinate) js es) ∧
      S'.files = S.files ∧ (c.changed = false → c'.changed = false) := by
  generalize hforce : false = force at h
  induction h with
  | done => exact ⟨⟨[], rfl, .nil⟩, rfl, id⟩
  | stuck hlabels =>
    obtain ⟨d, htext, -⟩ := hpublished _ List.mem_cons_self
    rw [hlabels] at htext
    cases htext
  | @emitted j js c c₁ c' S S₁ S' d e r htext hrun _ ih =>
    subst hforce
    obtain ⟨⟨d', htext', hhere⟩, hothers⟩ := List.forall_mem_cons.mp hpublished
    rw [htext] at htext'
    cases htext'
    obtain ⟨he, hfiles, hread⟩ := hhere.upToDate hhome hrun
    have htime := (ends_of_run hhome hrun).2
    obtain ⟨⟨es, rfl, hall⟩, hfiles', hclean⟩ := ih (hfiles ▸ hhome) (fun k hk => by
      obtain ⟨d', hd', hp⟩ := hothers k hk
      have hp' := hp.congr hfiles htime
      obtain ⟨s, q, hs, hq⟩ := hp'.noted
      refine ⟨d', hd', hp'.holds, s, q, ?_, hq⟩
      rw [known_congr hfiles htime, known_of_atMostRead hread, ← known_congr hfiles htime, hs])
    refine ⟨⟨_, rfl, .cons ⟨d, htext, Except.ok.inj he⟩ hall⟩, hfiles'.trans hfiles,
      fun hc => hclean ?_⟩
    rcases hread with rfl | ⟨-, s, -, rfl⟩
    · exact hc
    · rfl
  | failed htext hrun =>
    subst hforce
    obtain ⟨d', htext', hhere⟩ := hpublished _ List.mem_cons_self
    rw [htext] at htext'
    cases htext'
    obtain ⟨he, -⟩ := hhere.upToDate hhome hrun
    cases he
  | @quiet js c c' S S' r log _ ih =>
    have hfiles : ({ S with log } : Session).files = S.files := rfl
    exact ih hhome fun j hj => (hpublished j hj).imp fun d h => ⟨h.1, h.2.congr hfiles rfl⟩

/-- The file of a job holds its document, and has a name. -/
structure Job.There (j : Job) (files : FileStore) : Prop where
  parts : j.output.parts ≠ []
  proper : j.output.name ≠ ".."
  holds : ∃ d, j.text = .ok d ∧ files.readBytes j.output = .ok d.toUTF8

/-- A document is written over itself. -/
theorem Job.There.rewritten {r : Except Fault Emission} (h : j.There S.files)
    (hdistinct : S.files.Distinct) (hhome : Homed S.files) (hsolid : Solid S.files S.files.current)
    (hs : known c S = .ok s) (htext : j.text = .ok d)
    (hrun : exec (emit true d j.output j.coordinate) (c, S) = (r, (c', S'))) :
    r = .ok (outcome .written d j.output j.coordinate) ∧ S'.files = S.files ∧
      ∃ s', known c' S' = .ok s' := by
  obtain ⟨d', htext', hread⟩ := h.holds
  rw [htext] at htext'
  cases htext'
  obtain ⟨l, hl, hb⟩ := readBytes_eq_ok_iff_locate.mp hread
  obtain ⟨above, habove, hdir⟩ := directory_above hsolid h.parts h.proper hl
  have hmade : S.files.makeDirs j.output.parent = (.ok (), S.files) :=
    makeDirs_of_isDir (isDir?_eq_true_iff_locate.mpr ⟨above, habove, hdir.directory⟩)
  have hwrote : S.files.writeBytes j.output d.toUTF8 = .ok S.files := by
    have hl₀ : l ≠ [] := ne_nil_of_not_directory (by rw [hb]; simp)
    rw [writeBytes, hl]
    simp only [bind, Except.bind, hb, put_same hdistinct hl₀ hb]
    rfl
  obtain ⟨log, hwrite⟩ := exec_write_ok hmade hwrote (realPath_of_locate hhome hl).1
    (show known c { S with files := S.files } = .ok s from hs) j.coordinate
  rw [emit] at hrun
  dsimp only at hrun
  rw [if_pos rfl, exec_bind, exec_pure] at hrun
  dsimp only at hrun
  rw [if_neg Bool.false_ne_true, exec_bind_ok hwrite] at hrun
  cases hrun
  exact ⟨rfl, rfl, _, known_of_state rfl _⟩

/-- **Emitting again, by force.** All documents are written over themselves. -/
theorem Chain.rewritten (h : Chain true js c S r c' S') (hdistinct : S.files.Distinct)
    (hhome : Homed S.files) (hsolid : Solid S.files S.files.current)
    (hthere : ∀ j ∈ js, j.There S.files) (hknown : ∃ s, known c S = .ok s) :
    (∃ es, r = .ok es ∧ List.Forall₂ (fun j e => ∃ d, j.text = .ok d ∧
      e = outcome .written d j.output j.coordinate) js es) ∧ S'.files = S.files := by
  generalize hforce : true = force at h
  induction h with
  | done => exact ⟨⟨[], rfl, .nil⟩, rfl⟩
  | stuck hlabels =>
    obtain ⟨d, htext, -⟩ := (hthere _ List.mem_cons_self).holds
    rw [hlabels] at htext
    cases htext
  | @emitted j js c c₁ c' S S₁ S' d e r htext hrun _ ih =>
    subst hforce
    obtain ⟨hhere, hothers⟩ := List.forall_mem_cons.mp hthere
    obtain ⟨s, hs⟩ := hknown
    obtain ⟨he, hfiles, hknown'⟩ := hhere.rewritten hdistinct hhome hsolid hs htext hrun
    obtain ⟨⟨es, rfl, hall⟩, hfiles'⟩ := ih (hfiles ▸ hdistinct) (hfiles ▸ hhome) (hfiles ▸ hsolid)
      (hfiles ▸ hothers) hknown'
    exact ⟨⟨_, rfl, .cons ⟨d, htext, Except.ok.inj he⟩ hall⟩, hfiles'.trans hfiles⟩
  | failed htext hrun =>
    subst hforce
    obtain ⟨s, hs⟩ := hknown
    obtain ⟨he, -⟩ := (hthere _ List.mem_cons_self).rewritten hdistinct hhome hsolid hs htext hrun
    cases he
  | quiet log _ ih => exact ih hdistinct hhome hsolid hthere hknown

end Emission

end ModulePins
