import ModulePins.Proofs.Descriptor.Content
import ModulePins.Proofs.Emission.Chain

/-!
# Whatever a cache file holds

Reading a cache makes do with whatever stands in the place of its file: nothing, something that is no
file, or bytes that are no cache all count as an empty cache. There are two kinds of bytes that it
does not make do with, those that are no UTF-8 and those in which a whole number has more digits than
can be read. `Raises` are these bytes, and `Loads` says of each content what reading it comes to.

A series of emissions reads the cache at its first emission: before it writes anything, or by force
behind its first document. Where the bytes can be read, no emission makes that worse, even one that
writes its document over the cache file, since a document is a value of JSON without numbers.

## Main definitions

* `Cache.Encodes`, `Cache.Raises` — bytes that are a cache, and bytes that cannot be read
* `Cache.Loads` — what reading a cache comes to
* `Cache.Loadable` — a cache that has been read, or can be

## Main results

* `Cache.loads` — every content of a cache file
* `Emission.Series.ofFiles` — with a cache that can be read, emissions fail because of files only
* `Emission.exec_emit_raises` — with one that cannot be read, nothing is written
-/

namespace ModulePins

namespace Cache

open FileStore ModulePins.Task

variable {c c' : Cache} {S : Session} {s : CacheState} {f : Fault} {path output : Path}
  {bytes : ByteArray} {now : Stamp} {files dirs : FileStore}

/-! ### Bytes -/

/-- The bytes are UTF-8, the text is JSON, and the value is a cache document with this state. -/
def Encodes (now : Stamp) (bytes : ByteArray) (s : CacheState) : Prop :=
  ∃ text v, String.fromUTF8? bytes = some text ∧
    Json.read (Text.unifyNewlines text.toList) = .ok v ∧ CacheState.ofJson? now v = some s

/-- Reading the bytes fails: they are no UTF-8, or a whole number has too many digits. -/
def Raises (bytes : ByteArray) (f : Fault) : Prop :=
  (String.fromUTF8? bytes = none ∧ f = .notText) ∨
    ∃ text n, String.fromUTF8? bytes = some text ∧
      Json.read (Text.unifyNewlines text.toList) = .error (.tooManyDigits n) ∧
      f = .value (.tooManyDigits n)

theorem decode_eq_error_iff : decode now bytes = .error f ↔ Raises bytes f := by
  rw [decode, Raises]
  cases String.fromUTF8? bytes with
  | none => simp [eq_comm]
  | some text =>
    simp only [parse]
    cases hread : Json.read (Text.unifyNewlines text.toList) with
    | ok v => simp [Except.map, hread]
    | error fault => cases fault <;> simp [Except.map, hread, eq_comm]

/-- The text of a document can be read. -/
theorem not_raises_text (d : Document) (f : Fault) : ¬ Raises (d.text false).toUTF8 f := by
  have hlines : Text.unifyNewlines (d.text false).toList = (d.text false).toList := by
    rw [Document.text, Json.toText, String.toList_ofList, Document.toJson_eq]
    exact Json.unifyNewlines_print d.content.plain_toJson
  rintro (⟨hnone, -⟩ | ⟨text, n, hsome, hread, -⟩)
  · rw [Text.fromUTF8?_toUTF8] at hnone
    cases hnone
  · rw [Text.fromUTF8?_toUTF8] at hsome
    cases hsome
    rw [hlines, d.read_text] at hread
    cases hread

/-! ### Reading -/

section Read

variable {b : ByteArray}

theorem exec_read_unreadable {e : FileError} (h : S.files.readBytes path = .error e) :
    exec (read path) S =
      (.ok .empty, { S with log := S.log ++ [brokenRecord (Fault.file e).message] }) := by
  rw [read, exec_bind, exec_tryCatch, exec_map, Session.exec_readText, h]
  rfl

theorem exec_read_encodes (h : S.files.readBytes path = .ok b) (hs : Encodes S.now b s) :
    exec (read path) S =
      (.ok s, { S with
        log := S.log ++ [note .debug ("Loaded descriptor cache from " ++ path.toString)] }) := by
  obtain ⟨text, v, htext, hread, hstate⟩ := hs
  rw [read, exec_bind, exec_tryCatch, exec_map, Session.exec_readText, h]
  simp only [htext, Except.map]
  rw [exec_bind, exec_get]
  dsimp only
  rw [exec_bind, exec_ofExcept, parse, hread]
  dsimp only
  rw [hstate]
  rfl

theorem exec_read_raises (h : S.files.readBytes path = .ok b) (hf : Raises b f) :
    exec (read path) S = (.error f, S) := by
  rw [read, exec_bind, exec_tryCatch, exec_map, Session.exec_readText, h]
  rcases hf with ⟨htext, rfl⟩ | ⟨text, n, htext, hread, rfl⟩
  · simp only [htext, Except.map]
    rfl
  · simp only [htext, Except.map]
    rw [exec_bind, exec_get]
    dsimp only
    rw [exec_bind, exec_ofExcept, parse, hread]

theorem exec_read_broken (h : S.files.readBytes path = .ok b) (hs : ∀ s, ¬ Encodes S.now b s)
    (hf : ∀ f, ¬ Raises b f) :
    exec (read path) S =
      (.ok .empty, { S with log := S.log ++ [brokenRecord "not a cache document"] }) := by
  rw [read, exec_bind, exec_tryCatch, exec_map, Session.exec_readText, h]
  cases htext : String.fromUTF8? b with
  | none => exact absurd (.inl ⟨htext, rfl⟩) (hf .notText)
  | some text =>
    simp only [htext, Except.map]
    rw [exec_bind, exec_get]
    dsimp only
    rw [exec_bind, exec_ofExcept, parse]
    cases hread : Json.read (Text.unifyNewlines text.toList) with
    | ok v =>
      cases hstate : CacheState.ofJson? S.now v with
      | none =>
        dsimp only
        rw [hstate]
        rfl
      | some s => exact absurd ⟨text, v, htext, hread, hstate⟩ (hs s)
    | error fault =>
      cases fault with
      | malformed => rfl
      | tooManyDigits n => exact absurd (.inr ⟨text, n, htext, hread, rfl⟩) (hf _)

end Read

theorem exec_load_ok {S' : Session} (hpath : c.path = some path)
    (hthere : S.files.exists? path = .ok true) (h : exec (read path) S = (.ok s, S')) :
    exec load (c, S) = (.ok s, (⟨c.path, some s, false⟩, S')) := by
  rw [load, exec_bind, exec_part]
  dsimp only
  rw [hpath]
  dsimp only
  rw [exec_bind, exec_session, Session.exec_ask, hthere]
  simp only [Except.mapError_ok, if_true]
  rw [exec_bind, exec_session, h]
  rfl

theorem exec_load_error {S' : Session} (hpath : c.path = some path)
    (hthere : S.files.exists? path = .ok true) (h : exec (read path) S = (.error f, S')) :
    exec load (c, S) = (.error f, (c, S')) := by
  rw [load, exec_bind, exec_part]
  dsimp only
  rw [hpath]
  dsimp only
  rw [exec_bind, exec_session, Session.exec_ask, hthere]
  simp only [Except.mapError_ok, if_true]
  rw [exec_bind, exec_session, h]

/-- What reading a cache anew comes to, for each content of its file. The files stay as they are, and
the log says what was found. -/
structure Loads (path : Path) (c : Cache) (S : Session) : Prop where
  nothing : S.files.exists? path = .ok false →
    exec load (c, S) = (.ok .empty, (⟨c.path, some .empty, false⟩, S))
  /-- There is something that cannot be read as a file, for instance a directory. -/
  unreadable : ∀ e, S.files.exists? path = .ok true → S.files.readBytes path = .error e →
    exec load (c, S) = (.ok .empty, (⟨c.path, some .empty, false⟩,
      { S with log := S.log ++ [brokenRecord (Fault.file e).message] }))
  valid : ∀ b s, S.files.readBytes path = .ok b → Encodes S.now b s →
    exec load (c, S) = (.ok s, (⟨c.path, some s, false⟩, { S with
      log := S.log ++ [note .debug ("Loaded descriptor cache from " ++ path.toString)] }))
  raises : ∀ b f, S.files.readBytes path = .ok b → Raises b f →
    exec load (c, S) = (.error f, (c, S))
  broken : ∀ b, S.files.readBytes path = .ok b → (∀ s, ¬ Encodes S.now b s) → (∀ f, ¬ Raises b f) →
    exec load (c, S) = (.ok .empty, (⟨c.path, some .empty, false⟩,
      { S with log := S.log ++ [brokenRecord "not a cache document"] }))

/-- **Every content of a cache file** is read in one of these ways. -/
theorem loads (hpath : c.path = some path) (S : Session) : Loads path c S := by
  have hthere {b : ByteArray} (h : S.files.readBytes path = .ok b) :
      S.files.exists? path = .ok true := by
    obtain ⟨l, hl, hb⟩ := readBytes_eq_ok_iff_locate.mp h
    rw [exists?_of_locate hl, hb]
    rfl
  exact {
    nothing := fun hno => by
      rw [load, exec_bind, exec_part]
      dsimp only
      rw [hpath]
      dsimp only
      rw [exec_bind, exec_session, Session.exec_ask, hno]
      rfl
    unreadable := fun e hyes h => exec_load_ok hpath hyes (exec_read_unreadable h)
    valid := fun b s h hs => exec_load_ok hpath (hthere h) (exec_read_encodes h hs)
    raises := fun b f h hf => exec_load_error hpath (hthere h) (exec_read_raises h hf)
    broken := fun b h hs hf => exec_load_ok hpath (hthere h) (exec_read_broken h hs hf) }

/-! ### Caches that can be read -/

/-- The cache has been read, or there is no file at its place on which reading fails. -/
def Loadable (c : Cache) (files : FileStore) : Prop :=
  c.state = none → ∀ path ∈ c.path, ∀ l, files.realPath path = .ok ⟨.root, l⟩ →
    ∀ b, files.node? l = some (.file b) → ∀ f, ¬ Raises b f

theorem loadable_of_state (h : c.state ≠ none) (files : FileStore) : Loadable c files :=
  fun hnone => absurd hnone h

theorem Loadable.read (h : Loadable c S.files) (hread : AtMostRead S c c') :
    Loadable c' S.files := by
  rcases hread with rfl | ⟨-, s, -, rfl⟩
  · exact h
  · exact loadable_of_state (by simp) _

theorem Loadable.of_stored (hhome : Homed files) (h : Loadable c files) (hnone : c.state = none)
    (hf : stored now files c.path = .error f) : f.OfFiles := by
  cases hpath : c.path with
  | none =>
    rw [hpath] at hf
    cases hf
  | some path =>
    rw [hpath] at hf
    rcases stored_cases now files path with hempty | ⟨e, he⟩ | ⟨l, b, hl, hb, hdecode⟩
    · rw [hf] at hempty
      cases hempty
    · rw [hf] at he
      cases he
      exact .inl ⟨e, rfl⟩
    · rw [hdecode] at hf
      have hreal := (realPath_of_locate hhome hl).1
      exact absurd (decode_eq_error_iff.mp hf) (h hnone path hpath l hreal b hb f)

/-- A cache that can be read is read, unless files fail. -/
theorem Loadable.of_known (hhome : Homed S.files) (h : Loadable c S.files)
    (hf : known c S = .error f) : f.OfFiles := by
  rw [known] at hf
  cases hstate : c.state with
  | some s =>
    rw [hstate] at hf
    cases hf
  | none =>
    rw [hstate] at hf
    exact h.of_stored hhome hstate hf

/-- Writing bytes that can be read leaves the cache so, wherever they are written. -/
theorem Loadable.written {b : ByteArray} (hhome : Homed files) (h : Loadable c files)
    (hmade : Extends files dirs) (hwrote : dirs.writeBytes output b = .ok S.files)
    (hb : ∀ f, ¬ Raises b f) : Loadable c S.files := by
  intro hnone path hpath l hl b' hb'
  obtain ⟨htouches, l', hreal, -, -, hthere⟩ := written_touches hhome hmade hwrote
  by_cases hsame : l = l'
  · subst hsame
    rw [hthere] at hb'
    cases hb'
    exact hb
  · have hl' := htouches.toSameLinks.realPath hl
    refine h hnone path hpath l hl' b' ((htouches.file_iff l (fun o ho hreal' => ?_) b').mp hb')
    rw [List.mem_singleton.mp ho, hreal] at hreal'
    cases hreal'
    exact hsame rfl

/-- Without a state there is nothing to save. -/
theorem exec_save_of_unread (hnone : c.state = none) (S : Session) :
    exec save (c, S) = (.ok (), (c, S)) := by
  rw [save, exec_bind, exec_part]
  dsimp only
  rw [hnone]
  rfl

/-- Saving fails because of files only. -/
theorem ofFiles_of_save {st : Cache × Session} (h : exec save (c, S) = (.error f, st)) :
    f.OfFiles := by
  rw [save, exec_bind, exec_part] at h
  dsimp only at h
  split at h
  · rename_i s path hstate hpath
    split at h
    · obtain ⟨r, files, hexec, hends⟩ := exec_replaceFile_ends path (s.toJson.toText .ascii) S
      rw [exec_bind, exec_session, hexec] at h
      cases r with
      | error f' =>
        cases h
        exact hends.ofFiles _ rfl
      | ok u => cases h
    · cases h
  · cases h

end Cache

namespace Emission

open FileStore Cache ModulePins.Task

variable {force : Bool} {c c' : Cache} {S S' : Session} {d : String} {o q : Path}
  {coordinate : Coordinate} {f : Fault} {js : List Job} {r : Except Fault (List Emission)}

/-! ### Emissions -/

/-- With a cache that can be read, an emission fails because of files only. -/
theorem Ends.ofFiles {files : FileStore} (hhome : Homed S.files) (hload : Loadable c S.files)
    (hd : ∀ f, ¬ Raises d.toUTF8 f) (h : Ends force d o coordinate q c S (.error f) c' files) :
    f.OfFiles := by
  cases h with
  | refused _ hcause => exact hcause.elim id (hload.of_known hhome)
  | unnoted _ _ hmade hwrote hunread hunreadable =>
    have hload' := hload.written (S := { S with files }) hhome hmade hwrote hd
    have hlinks := (written_touches hhome hmade hwrote).1.toSameLinks
    exact hload'.of_stored (hhome.mono hlinks) hunread hunreadable

/-- An emission that returns leaves the cache read. -/
theorem Ends.loadable {e : Emission} {files : FileStore}
    (h : Ends force d o coordinate q c S (.ok e) c' files) : Loadable c' files := by
  cases h with
  | upToDate _ _ _ _ hstate => exact loadable_of_state (by simp [hstate]) _
  | written => exact loadable_of_state (by simp) _

/-- **With a cache that can be read, emissions fail because of files only**, if there is a document
for each. -/
theorem Series.ofFiles (h : Series force js c S r c' S') (hhome : Homed S.files)
    (hload : Loadable c S.files)
    (hjs : ∀ j ∈ js, ∃ d, j.text = .ok d ∧ ∀ f, ¬ Raises d.toUTF8 f) :
    ∀ f, r = .error f → f.OfFiles := by
  induction h with
  | done => exact fun f hf => by cases hf
  | stuck htext =>
    obtain ⟨d, hd, -⟩ := hjs _ List.mem_cons_self
    rw [htext] at hd
    cases hd
  | @emitted j js c c₁ c' S S₁ S' d q e r _ _ hends _ _ ih =>
    have hlinks := (hends.touches hhome).toSameLinks
    intro f hf
    refine ih (hhome.mono hlinks) hends.loadable (fun k hk => hjs k (List.mem_cons_of_mem _ hk)) f ?_
    cases r with
    | ok es => cases hf
    | error f' => exact hf
  | failed htext hends =>
    obtain ⟨d', hd', hraises⟩ := hjs _ List.mem_cons_self
    rw [htext] at hd'
    cases hd'
    exact fun f hf => Except.error.inj hf ▸ hends.ofFiles hhome hload hraises
  | quiet hfiles _ _ ih =>
    rw [← hfiles] at hhome hload
    exact ih hhome hload hjs

/-- **With a cache that cannot be read, an emission without force fails before it writes.** -/
theorem exec_emit_raises (hf : known c S = .error f) (d : String) (o : Path)
    (coordinate : Coordinate) :
    ∃ log, exec (emit false d o coordinate) (c, S) = (.error f, (c, { S with log })) := by
  obtain ⟨log, hcurrent⟩ := exec_current_error hf
  refine ⟨log, ?_⟩
  have hasked : exec (Cache.upToDate o (Digest.ofText d)) (c, S) = (.error f, (c, { S with log })) := by
    rw [Cache.upToDate, exec_bind_error hcurrent]
  rw [emit]
  dsimp only
  rw [if_neg Bool.false_ne_true, exec_bind_error hasked]

/-- A chain without force fails at its first document. -/
theorem Chain.raises (h : Chain false js c S r c' S') (hf : known c S = .error f) (hne : js ≠ [])
    (hjs : ∀ j ∈ js.head?, ∃ d, j.text = .ok d) : r = .error f ∧ c' = c ∧ S'.files = S.files := by
  induction h with
  | done => exact absurd rfl hne
  | stuck htext =>
    obtain ⟨d, hd⟩ := hjs _ rfl
    rw [htext] at hd
    cases hd
  | @emitted j js c c₁ c' S S₁ S' d e r _ hrun =>
    obtain ⟨log, hfails⟩ := exec_emit_raises hf d j.output j.coordinate
    rw [hfails] at hrun
    cases hrun
  | @failed j js c c' S S' d f' _ hrun =>
    obtain ⟨log, hfails⟩ := exec_emit_raises hf d j.output j.coordinate
    rw [hfails] at hrun
    cases hrun
    exact ⟨rfl, rfl, rfl⟩
  | quiet log _ ih => exact ih hf hne hjs

end Emission

end ModulePins
