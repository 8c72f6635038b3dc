import ModulePins.Proofs.Emission.Published

/-!
# Series of emissions

Documents that are emitted one after the other through one cache, to files that are reached through
links or not. A job is a document for a file, or the cycle because of which there is no document; a
series ends at the first such job, and `Series` says what it leaves behind. Nothing is assumed of
the jobs that a series does not come to.

## Main definitions

* `Emission.Job`, `Emission.Series` — documents that are due, and what emitting them comes to
* `Emission.Fit` — what a series relies on
* `Emission.Basis` — conditions that carry a series

## Main results

* `Emission.Fit.published` — an emission publishes its document
* `Emission.Series.spec` — a series publishes the documents before the first cycle
* `Emission.Series.upToDate` — a document that has been published is not written again
-/

namespace ModulePins

namespace Emission

open FileStore Cache ModulePins.Task

variable {force : Bool} {c c' c₁ : Cache} {S S' S₁ : Session} {o q : Path} {e : Emission} {f : Fault}
  {files : FileStore} {d : String}

/-! ### Jobs -/

/-- A document that is due at a file, or the cycle because of which there is none. -/
structure Job where
  output : Path
  coordinate : Coordinate
  text : Except (List String) String

/-- What a series relies on: its files are apart from each other and from the cache file, the cache
may be trusted with them, and no document has the digest of other bytes that its file holds. -/
structure Fit (js : List Job) (c : Cache) (S : Session) : Prop where
  homed : Homed S.files
  apart : js.Pairwise fun j k => Apart S.files j.output k.output
  cacheApart : ∀ j ∈ js, ∀ path ∈ c.path, Apart S.files j.output path
  trusted : Trusted (js.map Job.output) c S
  distinct : ∀ j ∈ js, ∀ d, j.text = .ok d → ∀ l, S.files.realPath j.output = .ok ⟨.root, l⟩ →
    ∀ b, S.files.node? l = some (.file b) → Digest.ofBytes b = Digest.ofText d → b = d.toUTF8

/-- A document that has been written and noted is published. -/
theorem published_of_written {dirs : FileStore} {path? : Option Path} {s : CacheState}
    {changed : Bool} {writtenAt : Stamp} (hhome : Homed S.files) (hkey : KeyedBy S d o q)
    (hmade : Extends S.files dirs) (hwrote : dirs.writeBytes o d.toUTF8 = .ok S₁.files) :
    Published d o ⟨path?, some (s.record q.toString ⟨Digest.ofText d, writtenAt⟩), changed⟩ S₁ := by
  obtain ⟨-, l, -, -, hl, hb⟩ := written_touches hhome hmade hwrote
  refine ⟨readBytes_eq_ok_iff_locate.mpr ⟨l, hl, hb⟩, _, q, known_of_state rfl _,
    hkey _ _ hmade hwrote, ?_⟩
  rw [CacheState.noted?_record, if_pos rfl]

section Fit

variable {j : Job} {js : List Job} {d : String}

/-- An emission fails only because files do. -/
theorem Fit.ofFiles (hfit : Fit (j :: js) c S)
    (h : Ends force d j.output j.coordinate q c S (.error f) c' files) : f.OfFiles := by
  cases h with
  | refused _ hcause => exact hcause.elim id ((hfit.trusted.of_known hfit.homed).2 f)
  | unnoted hdue hforced hmade hwrote hunread hunreadable =>
    have htouches := (written_touches hfit.homed hmade hwrote).1
    have htrusted : Trusted [] c { S with files } := hfit.trusted.mono htouches rfl (by simp)
      (by simp) (hfit.cacheApart j List.mem_cons_self)
    exact (htrusted.of_stored (hfit.homed.mono htouches.toSameLinks) hunread).2 f hunreadable

/-- **An emission that returns has published its document.** If it has left the file alone, the file
held bytes with the digest of the document, and these are the document. -/
theorem Fit.published (hfit : Fit (j :: js) c S) (htext : j.text = .ok d)
    (hkey : KeyedBy S d j.output q)
    (h : Ends force d j.output j.coordinate q c S (.ok e) c₁ S₁.files) :
    Published d j.output c₁ S₁ ∧ c₁.state ≠ none := by
  generalize hfiles : S₁.files = files at h
  cases h with
  | @upToDate c₂ s hforce hvouched hread hknown hstate =>
    obtain ⟨s', q', entry, hs', hq', hentry, hhash, hfile⟩ := hvouched
    rw [hknown] at hs'
    cases hs'
    obtain ⟨l, b, hl, hb⟩ := isFile?_eq_true_iff_locate.mp hfile
    rw [(realPath_of_locate hfit.homed hl).1] at hq'
    cases hq'
    have hreal := (realPath_of_locate hfit.homed hl).1
    have hnoted : s.noted? (keyOf l) = some (Digest.ofText d) :=
      CacheState.noted?_eq_some_iff.mpr ⟨entry, hentry, hhash⟩
    have hfaithful := (hfit.trusted.of_known hfit.homed).1 s hknown
    have hdigest := hfaithful j.output (by simp) l hreal _ hnoted b hb
    have hbytes := hfit.distinct j List.mem_cons_self d htext l hreal b hb hdigest.symm
    subst hbytes
    refine ⟨⟨?_, s, _, known_of_state hstate _, hfiles ▸ hreal, hnoted⟩, by simp [hstate]⟩
    exact hfiles ▸ readBytes_eq_ok_iff_locate.mpr ⟨l, hl, hb⟩
  | written hdue hread hasked hmade hwrote hstate =>
    subst hfiles
    exact ⟨published_of_written hfit.homed hkey hmade hwrote, by simp⟩

theorem Fit.congr (hfit : Fit js c S) (hfiles : S₁.files = S.files) (htime : S₁.now = S.now) :
    Fit js c S₁ where
  homed := hfiles ▸ hfit.homed
  apart := hfiles ▸ hfit.apart
  cacheApart := hfiles ▸ hfit.cacheApart
  trusted := ⟨hfiles ▸ hfit.trusted.state, htime ▸ hfiles ▸ hfit.trusted.file⟩
  distinct := hfiles ▸ hfit.distinct

/-- What is left of a series relies on the same. -/
theorem Fit.next (hfit : Fit (j :: js) c S) (hkey : KeyedBy S d j.output q)
    (h : Ends force d j.output j.coordinate q c S (.ok e) c₁ S₁.files) (htime : S₁.now = S.now) :
    Fit js c₁ S₁ := by
  have htouches := h.touches hfit.homed
  have hlinks := htouches.toSameLinks
  have hhome := hfit.homed.mono hlinks
  obtain ⟨hapart, hrest⟩ := List.pairwise_cons.mp hfit.apart
  have hcache := hfit.cacheApart j List.mem_cons_self
  have htrusted {c₂ : Cache} (hread : AtMostRead S c c₂) : Trusted (js.map Job.output) c₂ S₁ := by
    refine (hfit.trusted.read hfit.homed hread).mono htouches htime (by simp) (fun o ho => ?_) ?_
    · obtain ⟨k, hk, rfl⟩ := List.mem_map.mp ho
      exact hapart k hk
    · rwa [hread.path_eq]
  refine ⟨hhome, hrest.imp fun hjk => hjk.mono hlinks, fun k hk path hp => ?_, ?_, ?_⟩
  · rw [h.path_eq] at hp
    exact (hfit.cacheApart k (List.mem_cons_of_mem _ hk) path hp).mono hlinks
  · generalize hfiles : S₁.files = files at h
    cases h with
    | upToDate _ _ hread => exact htrusted hread
    | @written c₂ s dirs files _ hread _ hmade hwrote hstate =>
      have hs : known c₂ S₁ = .ok s := by
        rw [← hstate]
        exact known_congr (S := { S with files }) hfiles htime c₂
      refine ⟨fun s' hs' => ?_, fun hnone => by cases hnone⟩
      cases hs'
      intro o ho l hl hash hnoted b hb
      obtain ⟨k, hk, rfl⟩ := List.mem_map.mp ho
      have hne : q.toString ≠ keyOf l :=
        ((hapart k hk).mono hlinks) q _ (hfiles ▸ hkey _ _ hmade hwrote) hl
      rw [CacheState.noted?_record, if_neg hne] at hnoted
      exact ((htrusted hread).of_known hhome).1 s hs k.output ho l hl hash hnoted b hb
  · intro k hk d' hd' l hl b hb
    have hl' := hlinks.realPath hl
    refine hfit.distinct k (List.mem_cons_of_mem _ hk) d' hd' l hl' b ?_
    exact (file_iff_of_apart htouches (by simpa using hapart k hk) hl').mp hb

end Fit

/-- A condition that carries a series: an emission that relies on it publishes its document, and what
is left of the series may rely on it again. -/
structure Basis (force : Bool) (P : List Job → Cache → Session → Prop) : Prop where
  homed : ∀ {js : List Job} {c : Cache} {S : Session}, P js c S → Homed S.files
  apart : ∀ {js : List Job} {c : Cache} {S : Session}, P js c S →
    js.Pairwise fun j k => Apart S.files j.output k.output
  congr : ∀ {js : List Job} {c : Cache} {S S₁ : Session}, P js c S → S₁.files = S.files →
    S₁.now = S.now → P js c S₁
  ofFiles : ∀ {j : Job} {js : List Job} {c c' : Cache} {S : Session} {d : String} {q : Path}
    {f : Fault} {files : FileStore}, P (j :: js) c S →
      Ends force d j.output j.coordinate q c S (.error f) c' files → f.OfFiles
  published : ∀ {j : Job} {js : List Job} {c c₁ : Cache} {S S₁ : Session} {d : String} {q : Path}
    {e : Emission}, P (j :: js) c S → j.text = .ok d → KeyedBy S d j.output q →
      Ends force d j.output j.coordinate q c S (.ok e) c₁ S₁.files →
        Published d j.output c₁ S₁ ∧ c₁.state ≠ none
  next : ∀ {j : Job} {js : List Job} {c c₁ : Cache} {S S₁ : Session} {d : String} {q : Path}
    {e : Emission}, P (j :: js) c S → KeyedBy S d j.output q →
      Ends force d j.output j.coordinate q c S (.ok e) c₁ S₁.files → S₁.now = S.now → P js c₁ S₁

theorem basis_fit (force : Bool) : Basis force Fit where
  homed h := h.homed
  apart h := h.apart
  congr h := h.congr
  ofFiles h := h.ofFiles
  published h := h.published
  next h := h.next

/-! ### Series -/

/-- What emitting documents one after the other comes to, up to what is written to the log. -/
inductive Series (force : Bool) : List Job → Cache → Session → Except Fault (List Emission) → Cache →
    Session → Prop
  | done {c : Cache} {S : Session} : Series force [] c S (.ok []) c S
  /-- There is no document. -/
  | stuck {j : Job} {js : List Job} {c : Cache} {S : Session} {labels : List String}
      (text : j.text = .error labels) :
      Series force (j :: js) c S (.error (.inheritanceCycle labels)) c S
  | emitted {j : Job} {js : List Job} {c c₁ c' : Cache} {S S₁ S' : Session} {d : String} {q : Path}
      {e : Emission} {r : Except Fault (List Emission)} (text : j.text = .ok d)
      (key : KeyedBy S d j.output q)
      (ends : Ends force d j.output j.coordinate q c S (.ok e) c₁ S₁.files) (time : S₁.now = S.now)
      (rest : Series force js c₁ S₁ r c' S') : Series force (j :: js) c S (r.map (e :: ·)) c' S'
  | failed {j : Job} {js : List Job} {c c' : Cache} {S S' : Session} {d : String} {q : Path}
      {f : Fault} (text : j.text = .ok d)
      (ends : Ends force d j.output j.coordinate q c S (.error f) c' S'.files) :
      Series force (j :: js) c S (.error f) c' S'
  /-- Something is written to the log. -/
  | quiet {js : List Job} {c c' : Cache} {S S₁ S' : Session} {r : Except Fault (List Emission)}
      (files : S₁.files = S.files) (time : S₁.now = S.now) (rest : Series force js c S₁ r c' S') :
      Series force js c S r c' S'

section Series

variable {js : List Job} {r : Except Fault (List Emission)} {es : List Emission}

/-- The log does not matter. -/
theorem Series.of_log (log : List Record) (h : Series force js c { S with log } r c' S') :
    Series force js c S r c' S' :=
  have hfiles : ({ S with log } : Session).files = S.files := rfl
  .quiet hfiles rfl h

/-- A series keeps the links and the place of the cache, and the cache sound. -/
theorem Series.frame (h : Series force js c S r c' S') (hhome : Homed S.files) :
    SameLinks S.files S'.files ∧ c'.path = c.path ∧
      ((∀ s ∈ c.state, s.Sound) → ∀ s ∈ c'.state, s.Sound) := by
  induction h with
  | done => exact ⟨SameLinks.refl _, rfl, id⟩
  | stuck => exact ⟨SameLinks.refl _, rfl, id⟩
  | emitted _ _ hends _ _ ih =>
    have hlinks := (hends.touches hhome).toSameLinks
    obtain ⟨hlinks', hpath, hsound⟩ := ih (hhome.mono hlinks)
    exact ⟨hlinks.trans hlinks', hpath.trans hends.path_eq, fun hs => hsound (hends.sound hs)⟩
  | failed _ hends => exact ⟨(hends.touches hhome).toSameLinks, hends.path_eq, hends.sound⟩
  | quiet hfiles _ _ ih =>
    obtain ⟨hlinks, hrest⟩ := ih (hfiles ▸ hhome)
    exact ⟨hfiles ▸ hlinks, hrest⟩

/-- What has been read stays so. -/
theorem Series.state_ne_none (h : Series force js c S r c' S') (hstate : c.state ≠ none) :
    c'.state ≠ none := by
  induction h with
  | done => exact hstate
  | stuck => exact hstate
  | emitted _ _ hends _ _ ih => exact ih (hends.state_ne_none hstate)
  | failed _ hends => exact hends.state_ne_none hstate
  | quiet _ _ _ ih => exact ih hstate

/-- A series keeps what is published elsewhere, unless files fail. -/
theorem Series.keeps_published (h : Series force js c S r c' S') (hhome : Homed S.files)
    (hapart : ∀ j ∈ js, Apart S.files j.output o) (hasked : force = false ∨ c.state ≠ none)
    (hr : ∀ f, r = .error f → ¬ f.OfFiles) (hpublished : Published d o c S) :
    Published d o c' S' := by
  induction h with
  | done => exact hpublished
  | stuck => exact hpublished
  | @emitted j js c c₁ c' S S₁ S' d' q e r _ hkey hends htime _ ih =>
    have hlinks := (hends.touches hhome).toSameLinks
    obtain ⟨hpublished', hstate⟩ := hends.keeps_published hhome
      (hapart j List.mem_cons_self) hasked hkey hpublished
    refine ih (hhome.mono hlinks) (fun k hk => (hapart k (List.mem_cons_of_mem _ hk)).mono hlinks)
      (.inr hstate) (fun f hf => hr f ?_) hpublished'
    rw [hf]
    rfl
  | @failed j js c c' S S' d' q f _ hends =>
    obtain ⟨s, q, hs, -⟩ := hpublished.noted
    cases hends with
    | refused _ hcause =>
      rcases hcause with hf | hf
      · exact absurd hf (hr f rfl)
      · rw [hs] at hf
        cases hf
    | unnoted _ hforced _ _ hunread =>
      rcases hasked with hforce | hstate
      · rw [hforced] at hforce
        cases hforce
      · exact absurd hunread hstate
  | quiet hfiles htime _ ih =>
    rw [← hfiles] at hhome hapart
    exact ih hhome hapart hasked hr (hpublished.congr hfiles htime)

/-- The results of a series are those of its jobs, in their order. -/
theorem Series.reports (h : Series force js c S r c' S') : ∀ es, r = .ok es →
    List.Forall₂ (fun j e => ∃ d status, j.text = .ok d ∧
      e = outcome status d j.output j.coordinate) js es := by
  induction h with
  | done =>
    intro es hes
    cases hes
    exact .nil
  | stuck => exact fun es hes => by cases hes
  | @emitted j js c c₁ c' S S₁ S' d q e r htext _ hends _ _ ih =>
    intro es hes
    cases r with
    | error f => cases hes
    | ok es' =>
      cases hes
      refine .cons ?_ (ih es' rfl)
      generalize S₁.files = files at hends
      cases hends with
      | upToDate => exact ⟨d, .upToDate, htext, rfl⟩
      | written => exact ⟨d, .written, htext, rfl⟩
  | failed => exact fun es hes => by cases hes
  | quiet _ _ _ ih => exact ih

/-- **What a series comes to**, unless files fail. It publishes the documents before the first cycle
and touches no other files; if there is a cycle it fails with it. -/
theorem Series.spec {P : List Job → Cache → Session → Prop} (hP : Basis force P)
    (h : Series force js c S r c' S') (hfit : P js c S)
    (hr : ∀ f, r = .error f → ¬ f.OfFiles) (hstep : InStep c S.files) :
    ∃ before rest, js = before ++ rest ∧ Touches (before.map Job.output) S.files S'.files ∧
      InStep c' S'.files ∧ (before ≠ [] → c'.state ≠ none) ∧
      (∀ j ∈ before, ∃ d, j.text = .ok d ∧ Published d j.output c' S') ∧
      ((rest = [] ∧ ∃ es, r = .ok es) ∨ ∃ j rest' labels, rest = j :: rest' ∧
        j.text = .error labels ∧ r = .error (.inheritanceCycle labels)) := by
  induction h with
  | done => exact ⟨[], [], rfl, Touches.refl _ _, hstep, by simp, by simp, .inl ⟨rfl, _, rfl⟩⟩
  | @stuck j js c S labels htext =>
    exact ⟨[], j :: js, rfl, Touches.refl _ _, hstep, by simp, by simp,
      .inr ⟨j, js, labels, rfl, htext, rfl⟩⟩
  | @emitted j js c c₁ c' S S₁ S' d q e r htext hkey hends htime hrest ih =>
    have htouches := hends.touches (hP.homed hfit)
    have hlinks := htouches.toSameLinks
    obtain ⟨hpublished, hstate⟩ := hP.published hfit htext hkey hends
    have hr' : ∀ f, r = .error f → ¬ f.OfFiles := fun f hf => hr f (by rw [hf]; rfl)
    obtain ⟨before, rest, rfl, htouches', hstep', -, hbefore, hend⟩ :=
      ih (hP.next hfit hkey hends htime) hr' (hends.inStep hstep)
    have hkept := hrest.keeps_published ((hP.homed hfit).mono hlinks)
      (fun k hk => ((List.pairwise_cons.mp (hP.apart hfit)).1 k hk).symm.mono hlinks) (.inr hstate) hr'
      hpublished
    refine ⟨j :: before, rest, rfl, htouches.trans htouches', hstep',
      fun _ => hrest.state_ne_none hstate, ?_, ?_⟩
    · intro k hk
      rcases List.mem_cons.mp hk with rfl | hk
      · exact ⟨d, htext, hkept⟩
      · exact hbefore k hk
    · rcases hend with ⟨rfl, es, rfl⟩ | ⟨k, rest', labels, rfl, hlabels, rfl⟩
      · exact .inl ⟨rfl, _, rfl⟩
      · exact .inr ⟨k, rest', labels, rfl, hlabels, rfl⟩
  | failed _ hends => exact absurd (hP.ofFiles hfit hends) (hr _ rfl)
  | quiet hfiles htime _ ih =>
    rw [← hfiles] at hstep ⊢
    exact ih (hP.congr hfit hfiles htime) hr hstep

/-- **A document that has been published is not written again**, unless by force. -/
theorem Series.upToDate (h : Series false js c S r c' S') (hhome : Homed S.files)
    (hapart : js.Pairwise fun j k => Apart S.files j.output k.output) : ∀ es, r = .ok es →
      ∀ x ∈ js.zip es, ∀ d, x.1.text = .ok d → Published d x.1.output c S →
        x.2.status = .upToDate := by
  generalize hforce : false = forced at h
  induction h with
  | done => exact fun es _ x hx => by simp at hx
  | stuck => exact fun es hes => by cases hes
  | @emitted j js c c₁ c' S S₁ S' d q e r htext hkey hends htime _ ih =>
    intro es hes x hx d' hd' hpublished
    cases r with
    | error f => cases hes
    | ok es' =>
      cases hes
      obtain ⟨happarts, hrest⟩ := List.pairwise_cons.mp hapart
      have hlinks := (hends.touches hhome).toSameLinks
      rcases List.mem_cons.mp hx with rfl | hx
      · rw [htext] at hd'
        cases hd'
        subst hforce
        exact hends.upToDate_of_vouches hpublished.vouches
      · refine ih (hhome.mono hlinks) (hrest.imp fun hjk => hjk.mono hlinks) es' rfl x hx d' hd'
          (hends.keeps_published hhome ?_ (.inl hforce.symm) hkey hpublished).1
        exact happarts _ (List.of_mem_zip hx).1
  | failed => exact fun es hes => by cases hes
  | quiet hfiles htime _ ih =>
    rw [← hfiles] at hhome hapart
    intro es hes x hx d' hd' hpublished
    exact ih hhome hapart es hes x hx d' hd' (hpublished.congr hfiles htime)

end Series

end Emission

end ModulePins
