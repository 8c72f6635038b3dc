import ModulePins.Proofs.Emission.Emit
import ModulePins.Proofs.Emission.Saving

/-!
# Published documents

A document is published if it is in its file and the cache knows so: then it is not written again.
An emission that returns keeps what is published elsewhere, which means in files apart from its own;
saving the cache, opening it again and editing other files keep it, too.

What the cache knows of files may be wrong for files that are of no concern. `Trusted` says of which
files it is right, whether the state has been read already or not.

## Main definitions

* `Emission.Apart` — two paths that do not lead to the same place
* `Emission.Published` — a document that is in its file, and is known to be there
* `Emission.Trusted` — what the cache knows of these files is right

## Main results

* `Emission.Ends.keeps_published` — an emission leaves other documents published
* `Emission.Published.saved`, `Emission.Published.edited` — for caches to come
-/

namespace ModulePins

namespace Emission

open FileStore Cache ModulePins.Task

variable {force : Bool} {c c' c₁ : Cache} {S S' S₁ : Session} {s : CacheState} {d document : String}
  {output o p q : Path} {coordinate : Coordinate} {e : Emission} {f : Fault}
  {r : Except Fault Emission} {files : FileStore} {b : ByteArray} {l : Location}

/-! ### Files apart -/

/-- Two paths do not lead to the same place. -/
def Apart (files : FileStore) (p q : Path) : Prop :=
  ∀ p' q', files.realPath p = .ok p' → files.realPath q = .ok q' → p'.toString ≠ q'.toString

theorem apart_of_realPath {p' q' : Path} (hp : files.realPath p = .ok p')
    (hq : files.realPath q = .ok q') (hne : p'.toString ≠ q'.toString) : Apart files p q := by
  intro p₁ q₁ hp₁ hq₁
  rw [hp] at hp₁
  rw [hq] at hq₁
  cases hp₁
  cases hq₁
  exact hne

/-- Paths with different real paths are apart. -/
theorem pairwise_apart {ps : List Path} {real : Path → Path}
    (hreal : ∀ p ∈ ps, files.realPath p = .ok (real p))
    (hne : ps.Pairwise fun p q => (real p).toString ≠ (real q).toString) :
    ps.Pairwise (Apart files) :=
  hne.imp_of_mem fun hp hq h => apart_of_realPath (hreal _ hp) (hreal _ hq) h

theorem Apart.symm (h : Apart files p q) : Apart files q p :=
  fun q' p' hq hp heq => h p' q' hp hq heq.symm

theorem Apart.mono {files' : FileStore} (hlinks : SameLinks files files') (h : Apart files p q) :
    Apart files' p q :=
  fun p' q' hp hq => h p' q' (hlinks.realPath hp) (hlinks.realPath hq)

/-- A place of one path is no place of another one. -/
theorem Apart.ne_place (h : Apart files p q) (hq : files.realPath q = .ok ⟨.root, l⟩) :
    files.realPath p ≠ .ok ⟨.root, l⟩ :=
  fun hp => h _ _ hp hq rfl

/-- What the place of a path holds stays if paths apart from it are touched. -/
theorem file_iff_of_apart {ps : List Path} {files' : FileStore} (h : Touches ps files files')
    (hapart : ∀ o ∈ ps, Apart files o p) (hp : files.realPath p = .ok ⟨.root, l⟩) :
    files'.node? l = some (.file b) ↔ files.node? l = some (.file b) :=
  h.file_iff l (fun o ho => (hapart o ho).ne_place hp) b

theorem readBytes_of_apart {ps : List Path} {files' : FileStore} (hhome : Homed files)
    (h : Touches ps files files') (hapart : ∀ o ∈ ps, Apart files o p)
    (hb : files.readBytes p = .ok b) : files'.readBytes p = .ok b := by
  obtain ⟨l, hl, hnode⟩ := readBytes_eq_ok_iff_locate.mp hb
  have hreal := (realPath_of_locate hhome hl).1
  exact readBytes_eq_ok_iff_locate.mpr
    ⟨l, locate_mono h.toSameLinks hl, (file_iff_of_apart h hapart hreal).mpr hnode⟩

/-! ### What an emission leaves alone -/

theorem keyedBy_resolved (hhome : Homed S.files) (document : String) (output : Path) :
    KeyedBy S document output (resolved S.files output) := by
  intro dirs files hdirs hwrite
  obtain ⟨-, l, hbefore, hafter, -⟩ := written_touches hhome hdirs hwrite
  rw [hafter, (realPath_eq_ok_iff.mp hbefore).1]

theorem Ends.touches (hhome : Homed S.files)
    (h : Ends force document output coordinate q c S r c' files) : Touches [output] S.files files := by
  cases h with
  | upToDate => exact Touches.refl _ _
  | written _ _ _ hmade hwrote => exact (written_touches hhome hmade hwrote).1
  | refused _ _ _ hmade => exact hmade.touches _
  | unnoted _ _ hmade hwrote => exact (written_touches hhome hmade hwrote).1

theorem Ends.path_eq (h : Ends force document output coordinate q c S r c' files) :
    c'.path = c.path := by
  cases h with
  | upToDate _ _ hread => exact hread.path_eq
  | written => rfl
  | refused _ _ hread => exact hread.path_eq
  | unnoted => rfl

theorem state_ne_none_of_atMostRead (h : AtMostRead S c c') (hstate : c.state ≠ none) :
    c'.state ≠ none := by
  rcases h with rfl | ⟨hnone, -⟩
  · exact hstate
  · exact absurd hnone hstate

theorem Ends.state_ne_none (hstate : c.state ≠ none)
    (h : Ends force document output coordinate q c S r c' files) : c'.state ≠ none := by
  cases h with
  | upToDate _ _ hread => exact state_ne_none_of_atMostRead hread hstate
  | written => simp
  | refused _ _ hread => exact state_ne_none_of_atMostRead hread hstate
  | unnoted => exact hstate

theorem Ends.sound (hsound : ∀ s ∈ c.state, s.Sound)
    (h : Ends force document output coordinate q c S r c' files) : ∀ s ∈ c'.state, s.Sound := by
  cases h with
  | upToDate _ _ hread => exact sound_of_atMostRead hsound hread
  | written _ hread _ _ _ hstate =>
    intro s' hs'
    cases hs'
    exact (sound_of_known (sound_of_atMostRead hsound hread) hstate).record _ _
  | refused _ _ hread => exact sound_of_atMostRead hsound hread
  | unnoted => exact hsound

/-- When an emission has returned and nothing is unsaved, nothing has been written. -/
theorem Ends.inStep (h : Ends force document output coordinate q c S (.ok e) c' files)
    (hstep : InStep c S.files) : InStep c' files := by
  cases h with
  | upToDate _ _ hread => exact hstep.read hread
  | written => exact fun hc => by cases hc

/-! ### Publishing -/

/-- The document is in the file, and the cache knows so. -/
structure Published (d : String) (o : Path) (c : Cache) (S : Session) : Prop where
  holds : S.files.readBytes o = .ok d.toUTF8
  noted : ∃ s q, known c S = .ok s ∧ S.files.realPath o = .ok q ∧
    s.noted? q.toString = some (Digest.ofText d)

theorem Published.vouches (h : Published d o c S) : Vouches c S o (Digest.ofText d) := by
  obtain ⟨s, q, hs, hq, hnoted⟩ := h.noted
  obtain ⟨e, he, hhash⟩ := CacheState.noted?_eq_some_iff.mp hnoted
  obtain ⟨l, hl, hb⟩ := readBytes_eq_ok_iff_locate.mp h.holds
  exact ⟨s, q, e, hs, hq, he, hhash, isFile?_eq_true_iff_locate.mpr ⟨l, _, hl, hb⟩⟩

/-- A document that the cache vouches for is left alone, unless it is forced. -/
theorem Ends.upToDate_of_vouches (hvouched : Vouches c S output (Digest.ofText document))
    (h : Ends false document output coordinate q c S (.ok e) c' files) : e.status = .upToDate := by
  cases h with
  | upToDate => rfl
  | written hdue => exact absurd ⟨rfl, hvouched⟩ hdue

/-- Asking before writing, or having read before, settles what the cache knows. -/
theorem state_of_known (hread : AtMostRead S c c₁) (hstate : c₁.state ≠ none)
    (hs : known c S = .ok s) : c₁.state = some s := by
  obtain ⟨s', hs'⟩ := Option.ne_none_iff_exists'.mp hstate
  have heq := known_of_atMostRead hread
  rw [known_of_state hs', hs] at heq
  cases heq
  exact hs'

/-- An emission that returns keeps what is published elsewhere. -/
theorem Ends.keeps_published (hhome : Homed S.files) (hapart : Apart S.files output o)
    (hasked : force = false ∨ c.state ≠ none)
    (h : Ends force document output coordinate q c S (.ok e) c₁ S₁.files)
    (hkey : KeyedBy S document output q) (hpublished : Published d o c S) :
    Published d o c₁ S₁ ∧ c₁.state ≠ none := by
  have htouches := h.touches hhome
  have hholds := readBytes_of_apart hhome htouches (by simpa using hapart) hpublished.holds
  obtain ⟨s, p, hs, hp, hnoted⟩ := hpublished.noted
  have hp' : S₁.files.realPath o = .ok p := by
    obtain ⟨l, hl, -⟩ := readBytes_eq_ok_iff_locate.mp hholds
    have hreal := (realPath_of_locate (hhome.mono htouches.toSameLinks) hl).1
    have hbefore := htouches.toSameLinks.realPath hreal
    rw [hp] at hbefore
    rw [hreal, hbefore]
  generalize hfiles : S₁.files = files at *
  cases h with
  | upToDate _ _ _ hknown hstate =>
    rw [hs] at hknown
    cases hknown
    exact ⟨⟨hfiles ▸ hholds, s, p, known_of_state hstate _, hfiles ▸ hp', hnoted⟩, by simp [hstate]⟩
  | @written c₂ s₂ dirs files _ hread hasked' hmade hwrote hstate =>
    have hsome : c₂.state ≠ none := hasked.elim hasked' (state_ne_none_of_atMostRead hread)
    have hs₂ := state_of_known hread hsome hs
    rw [known_of_state hs₂] at hstate
    cases hstate
    have hne : q.toString ≠ p.toString := by
      have hq := hkey dirs _ hmade hwrote
      exact hapart q p (htouches.toSameLinks.realPath hq) hp
    refine ⟨⟨hfiles ▸ hholds, _, p, known_of_state rfl _, hfiles ▸ hp', ?_⟩, by simp⟩
    rw [CacheState.noted?_record, if_neg hne]
    exact hnoted

theorem known_congr (hfiles : S₁.files = S.files) (htime : S₁.now = S.now) (c : Cache) :
    known c S₁ = known c S := by
  rw [known, known, hfiles, htime]

theorem Published.congr (hfiles : S₁.files = S.files) (htime : S₁.now = S.now)
    (h : Published d o c S) : Published d o c S₁ := by
  obtain ⟨s, q, hs, hq, hnoted⟩ := h.noted
  exact ⟨hfiles ▸ h.holds, s, q, (known_congr hfiles htime c).trans hs, hfiles ▸ hq, hnoted⟩

/-! ### Opening the cache again -/

/-- What is published is so for every cache that finds its digest in the cache file. -/
theorem published_of_finds {path : Path} (hfinds : Finds S.files path s.digests)
    (hnoted : s.noted? q.toString = some (Digest.ofText d)) (hreal : S.files.realPath o = .ok q)
    (hholds : S.files.readBytes o = .ok d.toUTF8) : Published d o (Cache.opened (some path)) S := by
  obtain ⟨s', hs', hdigests⟩ := hfinds S.now
  refine ⟨hholds, s', q, hs', hreal, ?_⟩
  rw [CacheState.noted?_congr hdigests, hnoted]

theorem Published.realPath (h : Published d o c S) (hhome : Homed S.files) {files : FileStore}
    (hlinks : SameLinks S.files files) (hholds : files.readBytes o = .ok d.toUTF8) :
    files.realPath o = S.files.realPath o := by
  obtain ⟨-, q, -, hq, -⟩ := h.noted
  obtain ⟨l, hl, -⟩ := readBytes_eq_ok_iff_locate.mp hholds
  have hreal := (realPath_of_locate (hhome.mono hlinks) hl).1
  rw [hreal, hlinks.realPath hreal]

/-- Saving the cache publishes for caches to come. -/
theorem Published.saved {path : Path} (h : Published d o c S) (hhome : Homed S.files)
    (hstate : c.state ≠ none) (htouches : Touches c.places S.files S'.files)
    (hapart : ∀ p ∈ c.places, Apart S.files p o)
    (hfinds : ∀ s ∈ c.state, Finds S'.files path s.digests) :
    Published d o (Cache.opened (some path)) S' := by
  have hholds := readBytes_of_apart hhome htouches hapart h.holds
  have hsame := h.realPath hhome htouches.toSameLinks hholds
  obtain ⟨s, q, hs, hq, hnoted⟩ := h.noted
  obtain ⟨s', hs'⟩ := Option.ne_none_iff_exists'.mp hstate
  rw [known_of_state hs'] at hs
  cases hs
  exact published_of_finds (hfinds s hs') hnoted (hsame.trans hq) hholds

/-- Files may be edited. -/
theorem Published.edited {path : Path} {edits : List Path}
    (h : Published d o (Cache.opened (some path)) S) (hhome : Homed S.files)
    (htouches : Touches edits S.files S₁.files)
    (hcache : ∀ p ∈ edits, Apart S.files p path) (hapart : ∀ p ∈ edits, Apart S.files p o) :
    Published d o (Cache.opened (some path)) S₁ := by
  have hholds := readBytes_of_apart hhome htouches hapart h.holds
  have hsame := h.realPath hhome htouches.toSameLinks hholds
  obtain ⟨s, q, hs, hq, hnoted⟩ := h.noted
  have hne : s.digests ≠ [] := fun hnil => by
    rw [CacheState.noted?_eq, hnil] at hnoted
    cases hnoted
  refine published_of_finds ((finds_of_stored hs).mono hne htouches.toSameLinks fun l b hl hb => ?_)
    hnoted (hsame.trans hq) hholds
  exact (file_iff_of_apart htouches hcache (realPath_of_locate hhome hl).1).mpr hb

/-! ### What the cache may be trusted with -/

/-- What a state has noted of these files agrees with the files, where they are there. -/
def Faithful (files : FileStore) (outputs : List Path) (s : CacheState) : Prop :=
  ∀ o ∈ outputs, ∀ l, files.realPath o = .ok ⟨.root, l⟩ → ∀ hash, s.noted? (keyOf l) = some hash →
    ∀ b, files.node? l = some (.file b) → hash = Digest.ofBytes b

/-- The state of the cache agrees with these files; if it has not been read yet, it can be read from
the cache file and agrees with them. -/
structure Trusted (outputs : List Path) (c : Cache) (S : Session) : Prop where
  state : ∀ s ∈ c.state, Faithful S.files outputs s
  file : c.state = none → ∀ path ∈ c.path, ∀ l, S.files.realPath path = .ok ⟨.root, l⟩ →
    ∀ b, S.files.node? l = some (.file b) →
      ∃ s, decode S.now b = .ok s ∧ Faithful S.files outputs s

theorem faithful_empty (files : FileStore) (outputs : List Path) :
    Faithful files outputs CacheState.empty := fun _ _ _ _ _ h => by cases h

theorem Trusted.of_stored {outputs : List Path} (hhome : Homed S.files)
    (h : Trusted outputs c S) (hnone : c.state = none) :
    (∀ s, stored S.now S.files c.path = .ok s → Faithful S.files outputs s) ∧
      ∀ f, stored S.now S.files c.path = .error f → f.OfFiles := by
  cases hpath : c.path with
  | none =>
    refine ⟨fun s hs => ?_, fun f hf => by cases hf⟩
    cases hs
    exact faithful_empty _ _
  | some path =>
    rcases stored_cases S.now S.files path with hempty | ⟨e, he⟩ | ⟨l, b, hl, hb, hdecode⟩
    · rw [hempty]
      refine ⟨fun s hs => ?_, fun f hf => by cases hf⟩
      cases hs
      exact faithful_empty _ _
    · rw [he]
      refine ⟨fun s hs => (by cases hs), fun f hf => ?_⟩
      cases hf
      exact .inl ⟨e, rfl⟩
    · obtain ⟨s, hs, hfaithful⟩ := h.file hnone path hpath l (realPath_of_locate hhome hl).1 b hb
      rw [hdecode, hs]
      refine ⟨fun s' hs' => ?_, fun f hf => by cases hf⟩
      cases hs'
      exact hfaithful

/-- What the next operation works with can be trusted, and it works unless files fail. -/
theorem Trusted.of_known {outputs : List Path} (hhome : Homed S.files) (h : Trusted outputs c S) :
    (∀ s, known c S = .ok s → Faithful S.files outputs s) ∧
      ∀ f, known c S = .error f → f.OfFiles := by
  rw [known]
  cases hstate : c.state with
  | some s =>
    refine ⟨fun s' hs' => ?_, fun f hf => by cases hf⟩
    cases hs'
    exact h.state s hstate
  | none => exact h.of_stored hhome hstate

theorem Trusted.read {outputs : List Path} (hhome : Homed S.files) (h : Trusted outputs c S)
    (hread : AtMostRead S c c') : Trusted outputs c' S := by
  rcases hread with rfl | ⟨hnone, s, hs, rfl⟩
  · exact h
  · refine ⟨fun s' hs' => ?_, fun hstate => by cases hstate⟩
    cases hs'
    exact (h.of_stored hhome hnone).1 s hs

/-- Fewer files, none of which has been touched. -/
theorem Trusted.mono {outputs outputs' : List Path} (h : Trusted outputs c S)
    (htouches : Touches [output] S.files S₁.files) (htime : S₁.now = S.now)
    (hsub : outputs' ⊆ outputs) (hapart : ∀ o ∈ outputs', Apart S.files output o)
    (hcache : ∀ path ∈ c.path, Apart S.files output path) : Trusted outputs' c S₁ := by
  have hfaithful {s : CacheState} (hs : Faithful S.files outputs s) :
      Faithful S₁.files outputs' s := by
    intro o ho l hl hash hnoted b hb
    have hl' := htouches.toSameLinks.realPath hl
    refine hs o (hsub ho) l hl' hash hnoted b ?_
    exact (file_iff_of_apart htouches (by simpa using hapart o ho) hl').mp hb
  refine ⟨fun s hs => hfaithful (h.state s hs), fun hnone path hp l hl b hb => ?_⟩
  have hl' := htouches.toSameLinks.realPath hl
  have hb' := (file_iff_of_apart htouches (by simpa using hcache path hp) hl').mp hb
  obtain ⟨s, hs, hs'⟩ := h.file hnone path hp l hl' b hb'
  exact ⟨s, htime ▸ hs, hfaithful hs'⟩

end Emission

end ModulePins
