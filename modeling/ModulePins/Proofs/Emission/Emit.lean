import ModulePins.Emission.Emit
import ModulePins.Proofs.Emission.Cache

/-!
# What an emission comes to

An emission ends in one of four ways, which are the constructors of `Ends`. Two of them return: the
document was known to be there, or it was written and noted. Of the two that fail, one changes no
regular file and at most reads the cache; the other has written the document and could not note it,
which happens only if the cache cannot be read.

The key under which a document is noted is the real path of its file once it has been written. Where
no link is in the way it is the spot of the file, and `Emits` says the same in these terms.

## Main results

* `Emission.exec_emit_ends` — one of the four
* `Emission.exec_emit` — the same for an output file that is reached without links
-/

namespace ModulePins

namespace Emission

open FileStore ModulePins.Task Cache

variable {c c' c₁ : Cache} {S : Session} {document : String} {output q : Path} {force : Bool}
  {coordinate : Coordinate}

/-- What an emission returns. -/
def outcome (status : EmissionStatus) (document : String) (output : Path)
    (coordinate : Coordinate) : Emission :=
  ⟨status, output, Digest.ofText document, { coordinate, file := output }⟩

/-- Once the document has been written, its file has this real path. -/
def KeyedBy (S : Session) (document : String) (output q : Path) : Prop :=
  ∀ dirs files, Extends S.files dirs → dirs.writeBytes output document.toUTF8 = .ok files →
    files.realPath output = .ok q

/-- Is a document written? -/
def Due (force : Bool) (document : String) (output : Path) (c : Cache) (S : Session) : Prop :=
  ¬ (force = false ∧ Vouches c S output (Digest.ofText document))

/-- The four outcomes of an emission: what is returned, the cache and the file store. -/
inductive Ends (force : Bool) (document : String) (output : Path) (coordinate : Coordinate) (q : Path)
    (c : Cache) (S : Session) : Except Fault Emission → Cache → FileStore → Prop
  /-- The cache vouches for the file. -/
  | upToDate {c' : Cache} {s : CacheState} (notForced : force = false)
      (vouched : Vouches c S output (Digest.ofText document)) (read : AtMostRead S c c')
      (known : known c S = .ok s) (state : c'.state = some s) :
      Ends force document output coordinate q c S
        (.ok (outcome .upToDate document output coordinate)) c' S.files
  /-- The document was written, and noted in the state `s`. -/
  | written {c₁ : Cache} {s : CacheState} {dirs files : FileStore}
      (due : Due force document output c S) (read : AtMostRead S c c₁)
      (asked : force = false → c₁.state ≠ none) (made : Extends S.files dirs)
      (wrote : dirs.writeBytes output document.toUTF8 = .ok files)
      (state : known c₁ { S with files } = .ok s) :
      Ends force document output coordinate q c S
        (.ok (outcome .written document output coordinate))
        ⟨c.path, some (s.record q.toString ⟨Digest.ofText document, S.now⟩), true⟩ files
  /-- Nothing was written. -/
  | refused {f : Fault} {c' : Cache} {files : FileStore} (due : Due force document output c S)
      (cause : f.OfFiles ∨ known c S = .error f) (read : AtMostRead S c c')
      (made : Extends S.files files) :
      Ends force document output coordinate q c S (.error f) c' files
  /-- The document was written, but the cache could not be read to note it. -/
  | unnoted {f : Fault} {dirs files : FileStore} (due : Due force document output c S)
      (forced : force = true) (made : Extends S.files dirs) (wrote : dirs.writeBytes output document.toUTF8 = .ok files)
      (unread : c.state = none) (unreadable : stored S.now files c.path = .error f) :
      Ends force document output coordinate q c S (.error f) c files

/-- Writing that comes to its end. -/
theorem exec_write_ok {dirs files : FileStore} {s : CacheState}
    (hmade : S.files.makeDirs output.parent = (.ok (), dirs))
    (hwrote : dirs.writeBytes output document.toUTF8 = .ok files)
    (hreal : files.realPath output = .ok q) (hknown : known c { S with files } = .ok s)
    (coordinate : Coordinate) :
    ∃ log, exec (write document output coordinate) (c, S) =
      (.ok (), (⟨c.path, some (s.record q.toString ⟨Digest.ofText document, S.now⟩), true⟩,
        { S with files, log })) := by
  obtain ⟨log, hrecord⟩ :=
    exec_record_ok (S := { S with files }) hreal hknown (Digest.ofText document)
  rw [write, exec_bind, exec_session, Session.exec_makeDirs, hmade]
  simp only [Except.mapError_ok]
  rw [exec_bind, exec_session, Session.exec_change_ok (S := { S with files := dirs }) hwrote]
  dsimp only
  rw [exec_bind_ok hrecord]
  exact ⟨_, rfl⟩

/-- Writing, behind the question whether to. -/
theorem exec_write (hkey : KeyedBy S document output q) (c₁ : Cache) (coordinate : Coordinate) :
    ∃ r c' files log, exec (write document output coordinate) (c₁, S) =
        (r, (c', { S with files, log })) ∧
      ((∃ f, r = .error f ∧ f.OfFiles ∧ c' = c₁ ∧ Extends S.files files) ∨
        ∃ dirs, Extends S.files dirs ∧ dirs.writeBytes output document.toUTF8 = .ok files ∧
          ((∃ f, r = .error f ∧ c' = c₁ ∧ known c₁ { S with files } = .error f) ∨
            r = .ok () ∧ ∃ s, known c₁ { S with files } = .ok s ∧
              c' = ⟨c₁.path, some (s.record q.toString ⟨Digest.ofText document, S.now⟩), true⟩)) := by
  have hdirs : Extends S.files (S.files.makeDirs output.parent).2 := extends_makeDirs _ _
  generalize hmade : S.files.makeDirs output.parent = made at hdirs
  obtain ⟨result, dirs⟩ := made
  cases result with
  | error e =>
    rw [write, exec_bind, exec_session, Session.exec_makeDirs, hmade]
    exact ⟨_, c₁, dirs, S.log, rfl, .inl ⟨_, rfl, .inl ⟨e, rfl⟩, rfl, hdirs⟩⟩
  | ok u =>
    cases hwrite : dirs.writeBytes output document.toUTF8 with
    | error e =>
      rw [write, exec_bind, exec_session, Session.exec_makeDirs, hmade]
      simp only [Except.mapError_ok]
      rw [exec_bind, exec_session, Session.exec_change_error (S := { S with files := dirs }) hwrite]
      exact ⟨_, c₁, dirs, S.log, rfl, .inl ⟨_, rfl, .inl ⟨e, rfl⟩, rfl, hdirs⟩⟩
    | ok files =>
      cases hknown : known c₁ { S with files } with
      | error f =>
        obtain ⟨log, hrecord⟩ := exec_record_error output hknown (Digest.ofText document)
        rw [write, exec_bind, exec_session, Session.exec_makeDirs, hmade]
        simp only [Except.mapError_ok]
        rw [exec_bind, exec_session, Session.exec_change_ok (S := { S with files := dirs }) hwrite]
        dsimp only
        rw [exec_bind_error hrecord]
        exact ⟨_, c₁, files, log, rfl, .inr ⟨dirs, hdirs, hwrite, .inl ⟨f, rfl, rfl, hknown⟩⟩⟩
      | ok s =>
        obtain ⟨log, hexec⟩ :=
          exec_write_ok hmade hwrite (hkey dirs files hdirs hwrite) hknown coordinate
        exact ⟨_, _, files, log, hexec, .inr ⟨dirs, hdirs, hwrite, .inr ⟨rfl, s, hknown, rfl⟩⟩⟩

/-- What writing comes to, for a cache that has been read at most. -/
theorem ends_of_write (hkey : KeyedBy S document output q) (coordinate : Coordinate)
    (log : List Record) (hdue : Due force document output c S) (hread : AtMostRead S c c₁)
    (hasked : force = false → c₁.state ≠ none) :
    ∃ r c' files log', exec (do
        write document output coordinate
        return outcome .written document output coordinate : Caching Emission)
          (c₁, { S with log }) = (r, (c', { S with files, log := log' })) ∧
      Ends force document output coordinate q c S r c' files := by
  obtain ⟨r, c', files, log', hexec, hcase⟩ :=
    exec_write (S := { S with log }) hkey c₁ coordinate
  rw [exec_bind, hexec]
  rcases hcase with ⟨f, rfl, hf, rfl, hext⟩ |
    ⟨dirs, hdirs, hwrite, ⟨f, rfl, rfl, hknown⟩ | ⟨rfl, s, hknown, rfl⟩⟩
  · exact ⟨_, c', files, log', rfl, .refused hdue (.inl hf) hread hext⟩
  · refine ⟨_, c', files, log', rfl, ?_⟩
    have hunread : c'.state = none := by
      cases hstate : c'.state with
      | none => rfl
      | some s =>
        rw [known, hstate] at hknown
        cases hknown
    rw [known, hunread] at hknown
    have hforced : force = true := by
      by_contra hforce
      exact hasked (by simpa using hforce) hunread
    rcases hread with rfl | ⟨-, s, -, rfl⟩
    · exact .unnoted hdue hforced hdirs hwrite hunread hknown
    · cases hunread
  · rw [hread.path_eq]
    exact ⟨_, _, files, log', rfl, .written hdue hread hasked hdirs hwrite hknown⟩

/-- **Every emission ends in one of the four ways.** -/
theorem exec_emit_ends (hkey : KeyedBy S document output q) (force : Bool) (c : Cache)
    (coordinate : Coordinate) :
    ∃ r c' files log, exec (emit force document output coordinate) (c, S) =
        (r, (c', { S with files, log })) ∧ Ends force document output coordinate q c S r c' files := by
  rw [emit]
  dsimp only
  cases force with
  | true =>
    rw [if_pos rfl, exec_bind, exec_pure]
    exact ends_of_write hkey coordinate S.log (by simp [Due]) (.inl rfl) (by simp)
  | false =>
    obtain ⟨r, c₁, log, hexec, hread, herror, hstate, hvouches⟩ :=
      exec_upToDate c S output (Digest.ofText document)
    rw [if_neg Bool.false_ne_true, exec_bind, hexec]
    cases r with
    | error f =>
      refine ⟨_, c₁, S.files, log, rfl, .refused (fun hdue => ?_) (herror f rfl) hread (Extends.refl _)⟩
      cases hvouches.mpr hdue.2
    | ok current =>
      cases current with
      | true =>
        obtain ⟨s, hs, hs'⟩ := hstate true rfl
        exact ⟨_, c₁, S.files, _, rfl, .upToDate rfl (hvouches.mp rfl) hread hs hs'⟩
      | false =>
        obtain ⟨s, -, hs'⟩ := hstate false rfl
        refine ends_of_write hkey coordinate log (fun hdue => ?_) hread fun _ => by simp [hs']
        cases hvouches.mpr hdue.2

/-- A document for a file of which nothing is known is written. -/
theorem exec_emit_new {dirs files : FileStore} {s : CacheState} {p : Path}
    (hknown : known c S = .ok s) (hreal : S.files.realPath output = .ok p)
    (hnew : s.entry? p.toString = none) (hmade : S.files.makeDirs output.parent = (.ok (), dirs))
    (hwrote : dirs.writeBytes output document.toUTF8 = .ok files)
    (hreal' : files.realPath output = .ok q) (coordinate : Coordinate) :
    ∃ log, exec (emit false document output coordinate) (c, S) =
      (.ok (outcome .written document output coordinate),
        (⟨c.path, some (s.record q.toString ⟨Digest.ofText document, S.now⟩), true⟩,
          { S with files, log })) := by
  obtain ⟨c₁, log, hcurrent, -, hstate, hpath⟩ := exec_current_ok hknown
  have hasked : exec (Cache.upToDate output (Digest.ofText document)) (c, S) =
      (.ok false, (c₁, { S with log })) := by
    rw [Cache.upToDate, exec_bind_ok hcurrent,
      exec_bind_ok (exec_key_ok (S := { S with log }) hreal c₁), hnew]
    rfl
  have hknown₁ : known c₁ { S with files, log } = .ok s := by rw [known, hstate]
  obtain ⟨log', hwrite⟩ :=
    exec_write_ok (S := { S with log }) hmade hwrote hreal' hknown₁ coordinate
  rw [emit]
  dsimp only
  rw [if_neg Bool.false_ne_true, exec_bind_ok hasked, if_neg Bool.false_ne_true,
    exec_bind_ok hwrite, ← hpath]
  exact ⟨log', rfl⟩

/-! ### Without links -/

/-- The four outcomes of an emission to a file that is reached without links. -/
inductive Emits (force : Bool) (document : String) (output : Path) (c : Cache) (S : Session) :
    Except Fault Emission → Cache → FileStore → Prop
  /-- The cache knows that the document is there. -/
  | upToDate {e : Emission} {c' : Cache} (status : e.status = .upToDate) (notForced : force = false)
      (knows : KnowsCurrent c S output (Digest.ofText document)) (read : AtMostRead S c c') :
      Emits force document output c S (.ok e) c' S.files
  /-- The document was written, and noted in the state `s`. -/
  | written {e : Emission} {c₁ : Cache} {s : CacheState} {dirs files : FileStore}
      (status : e.status = .written)
      (due : ¬ (force = false ∧ KnowsCurrent c S output (Digest.ofText document)))
      (read : AtMostRead S c c₁) (made : Extends S.files dirs)
      (wrote : dirs.writeBytes output document.toUTF8 = .ok files)
      (state : known c₁ { S with files } = .ok s) :
      Emits force document output c S (.ok e)
        ⟨c.path, some (s.record (keyOf (spot S.files output)) ⟨Digest.ofText document, S.now⟩), true⟩
        files
  /-- Nothing was written. -/
  | refused {f : Fault} {c' : Cache} {files : FileStore}
      (due : ¬ (force = false ∧ KnowsCurrent c S output (Digest.ofText document)))
      (read : AtMostRead S c c') (made : Extends S.files files) :
      Emits force document output c S (.error f) c' files
  /-- The document was written, but the cache could not be read to note it. -/
  | unnoted {f : Fault} {files : FileStore}
      (due : ¬ (force = false ∧ KnowsCurrent c S output (Digest.ofText document)))
      (unread : c.state = none) (unreadable : stored S.now files c.path = .error f) :
      Emits force document output c S (.error f) c files

theorem keyedBy_spot (h : Direct S.files output) (hproper : ".." ∉ S.files.current)
    (document : String) : KeyedBy S document output ⟨.root, spot S.files output⟩ := by
  intro dirs files hdirs hwrite
  have hkeeps := (written_spec h hdirs hwrite).1.keeps
  rw [realPath_eq (h.mono hkeeps) (hkeeps.current ▸ hproper), spot_eq hkeeps.current]

/-- **Every emission ends in one of the four ways**, also in terms of spots. -/
theorem exec_emit (h : Direct S.files output) (hproper : ".." ∉ S.files.current)
    (force : Bool) (document : String) (c : Cache) (coordinate : Coordinate) :
    ∃ r c' files log, exec (emit force document output coordinate) (c, S) =
        (r, (c', { S with files, log })) ∧ Emits force document output c S r c' files := by
  obtain ⟨r, c', files, log, hexec, hends⟩ :=
    exec_emit_ends (keyedBy_spot h hproper document) force c coordinate
  have hiff : Vouches c S output (Digest.ofText document) ↔
      KnowsCurrent c S output (Digest.ofText document) := vouches_iff_knowsCurrent h hproper
  refine ⟨r, c', files, log, hexec, ?_⟩
  cases hends with
  | upToDate hforce hvouched hread _ _ => exact .upToDate rfl hforce (hiff.mp hvouched) hread
  | written hdue hread _ hmade hwrote hstate =>
    rw [Due, hiff] at hdue
    exact .written rfl hdue hread hmade hwrote hstate
  | refused hdue _ hread hmade =>
    rw [Due, hiff] at hdue
    exact .refused hdue hread hmade
  | unnoted hdue _ _ _ hunread hunreadable =>
    rw [Due, hiff] at hdue
    exact .unnoted hdue hunread hunreadable

end Emission

end ModulePins
