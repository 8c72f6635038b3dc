import ModulePins.Proofs.Emission.CacheState
import ModulePins.Proofs.FileStore.Operations
import ModulePins.Proofs.Path
import ModulePins.Proofs.Task

/-!
# What the cache does

A cache reads its state late and at most once, so an operation may or may not find it read. `known`
is the state that the next operation works with, and `AtMostRead` says that nothing else has
happened to the cache than that the state was read. With these, each operation has one statement
that does not ask whether the state had been read before.

Reading a cache file as such is `stored`; it depends on the file store alone, and what is written to
the log does not matter for it.

## Main results

* `Cache.exec_current_ok`, `Cache.exec_upToDate`, `Cache.exec_record_ok`, `Cache.exec_invalidate_ok`
* `Cache.exec_save` — saving changes the cache file and its temporary file only
* `Cache.decode_toText` — what has been saved is what will be read
-/

namespace ModulePins

namespace Cache

open FileStore ModulePins.Task

variable {c c' : Cache} {S : Session} {s : CacheState} {f : Fault} {path output : Path}
  {hash : String} {now : Stamp}

/-! ### Reading -/

/-- What the bytes of a cache file say; a text that is no cache says nothing. -/
def decode (now : Stamp) (bytes : ByteArray) : Except Fault CacheState :=
  match String.fromUTF8? bytes with
  | none => .error .notText
  | some text => (parse now (Text.unifyNewlines text.toList)).map fun s? => s?.getD .empty

/-- What reading the cache anew gives. -/
def stored (now : Stamp) (files : FileStore) : Option Path → Except Fault CacheState
  | none => .ok .empty
  | some path =>
    match files.exists? path with
    | .error e => .error (.file e)
    | .ok false => .ok .empty
    | .ok true =>
      match files.readBytes path with
      | .error _ => .ok .empty
      | .ok bytes => decode now bytes

/-- The state that the next operation works with. -/
def known (c : Cache) (S : Session) : Except Fault CacheState :=
  match c.state with
  | some s => .ok s
  | none => stored S.now S.files c.path

/-- The cache is the same, except perhaps that its state has been read. -/
def AtMostRead (S : Session) (c c' : Cache) : Prop :=
  c' = c ∨ c.state = none ∧ ∃ s, stored S.now S.files c.path = .ok s ∧ c' = ⟨c.path, some s, false⟩

theorem decode_toText (h : s.Sound) (now : Stamp) :
    decode now (s.toJson.toText .ascii).toUTF8 = .ok s := by
  rw [decode, Text.fromUTF8?_toUTF8]
  simp only [parse_toText h]
  rfl

theorem readable_of_decode {bytes : ByteArray} (h : decode now bytes = .ok s) :
    Number.isReadable s.version = true := by
  rw [decode] at h
  split at h
  · cases h
  · rw [parse] at h
    split at h
    · rename_i text _ v _
      cases hjson : CacheState.ofJson? now v with
      | none =>
        rw [hjson] at h
        cases h
        exact CacheState.readable_one
      | some s' =>
        rw [hjson] at h
        cases h
        exact CacheState.readable_of_ofJson? hjson
    · cases h
      exact CacheState.readable_one
    · cases h

/-- Bytes that are no cache are no failed file operation. -/
theorem decode_ne_file {bytes : ByteArray} {e : FileError} :
    decode now bytes ≠ .error (.file e) := by
  rw [decode]
  split
  · exact fun h => by cases h
  · rw [parse]
    split <;> exact fun h => by cases h

/-- A cache file that is there is read. -/
theorem stored_eq_decode {files : FileStore} {bytes : ByteArray} (h : Direct files path)
    (hr : Reaches files path) (hb : files.node? (spot files path) = some (.file bytes))
    (now : Stamp) : stored now files (some path) = decode now bytes := by
  rw [stored, (exists?_eq_true_iff h).mpr ⟨hr, by rw [hb]; rfl⟩]
  simp only [(readBytes_eq_ok_iff h).mpr ⟨hr, hb⟩]

/-- Where there is no cache file, nothing is known. -/
theorem eq_empty_of_stored {files : FileStore} (h : Direct files path)
    (hno : ¬ (Reaches files path ∧ ∃ b, files.node? (spot files path) = some (.file b)))
    (hs : stored now files (some path) = .ok s) : s = .empty := by
  rw [stored] at hs
  split at hs
  · cases hs
  · exact (Except.ok.inj hs).symm
  · split at hs
    · exact (Except.ok.inj hs).symm
    · rename_i bytes hread
      obtain ⟨hr, hb⟩ := (readBytes_eq_ok_iff h).mp hread
      exact absurd ⟨hr, bytes, hb⟩ hno

theorem exec_read (path : Path) (S : Session) :
    ∃ log, exec (read path) S =
      (match S.files.readBytes path with
        | .error _ => .ok .empty
        | .ok bytes => decode S.now bytes, { S with log }) := by
  rw [read, exec_bind, exec_tryCatch, exec_map, Session.exec_readText]
  cases hread : S.files.readBytes path with
  | error e => exact ⟨_, rfl⟩
  | ok bytes =>
    dsimp only
    rw [decode]
    cases htext : String.fromUTF8? bytes with
    | none => exact ⟨_, rfl⟩
    | some text =>
      simp only [Except.map]
      rw [exec_bind, exec_get]
      dsimp only
      rw [exec_bind, exec_ofExcept]
      cases parse S.now (Text.unifyNewlines text.toList) with
      | error f => exact ⟨_, rfl⟩
      | ok s? => cases s? <;> exact ⟨_, rfl⟩

theorem exec_load (c : Cache) (S : Session) :
    ∃ log, exec load (c, S) =
      match stored S.now S.files c.path with
      | .ok s => (.ok s, (⟨c.path, some s, false⟩, { S with log }))
      | .error f => (.error f, (c, { S with log })) := by
  rw [load, exec_bind, exec_part]
  dsimp only
  cases hpath : c.path with
  | none => exact ⟨_, rfl⟩
  | some path =>
    obtain ⟨log, hread⟩ := exec_read path S
    rw [exec_bind, exec_session, Session.exec_ask, stored]
    cases hexists : S.files.exists? path with
    | error e => exact ⟨_, rfl⟩
    | ok there =>
      cases there with
      | false => exact ⟨_, rfl⟩
      | true =>
        simp only [Except.mapError_ok, if_true]
        rw [exec_bind, exec_session, hread]
        cases S.files.readBytes path with
        | error e => exact ⟨log, rfl⟩
        | ok bytes =>
          dsimp only
          cases decode S.now bytes with
          | error f => exact ⟨log, rfl⟩
          | ok s => exact ⟨log, rfl⟩

theorem load_fst (c : Cache) (S : Session) : (exec load (c, S)).1 = stored S.now S.files c.path := by
  obtain ⟨log, hload⟩ := exec_load c S
  rw [hload]
  cases stored S.now S.files c.path <;> rfl

/-! ### The state at hand -/

theorem AtMostRead.path_eq (h : AtMostRead S c c') : c'.path = c.path := by
  rcases h with rfl | ⟨-, s, -, rfl⟩ <;> rfl

theorem known_of_state (h : c.state = some s) (S : Session) : known c S = .ok s := by
  rw [known, h]

theorem known_of_atMostRead (h : AtMostRead S c c') : known c' S = known c S := by
  rcases h with rfl | ⟨hnone, s, hs, rfl⟩
  · rfl
  · rw [known, known, hnone]
    exact hs.symm

theorem exec_current_ok (h : known c S = .ok s) :
    ∃ c' log, exec current (c, S) = (.ok s, (c', { S with log })) ∧ AtMostRead S c c' ∧
      c'.state = some s ∧ c'.path = c.path := by
  rw [current, exec_bind, exec_part]
  dsimp only
  cases hstate : c.state with
  | some s' =>
    rw [known, hstate] at h
    cases h
    exact ⟨c, S.log, rfl, .inl rfl, hstate, rfl⟩
  | none =>
    rw [known, hstate] at h
    obtain ⟨log, hload⟩ := exec_load c S
    have h' : stored S.now S.files c.path = .ok s := h
    rw [h'] at hload
    exact ⟨_, log, hload, .inr ⟨hstate, s, h', rfl⟩, rfl, rfl⟩

theorem exec_current_error (h : known c S = .error f) :
    ∃ log, exec current (c, S) = (.error f, (c, { S with log })) := by
  rw [current, exec_bind, exec_part]
  dsimp only
  cases hstate : c.state with
  | some s' =>
    rw [known, hstate] at h
    cases h
  | none =>
    rw [known, hstate] at h
    obtain ⟨log, hload⟩ := exec_load c S
    have h' : stored S.now S.files c.path = .error f := h
    rw [h'] at hload
    exact ⟨log, hload⟩

theorem current_fst (c : Cache) (S : Session) : (exec current (c, S)).1 = known c S := by
  cases hknown : known c S with
  | ok s =>
    obtain ⟨c', log, hcurrent, -⟩ := exec_current_ok hknown
    rw [hcurrent]
  | error f =>
    obtain ⟨log, hcurrent⟩ := exec_current_error hknown
    rw [hcurrent]

/-- The key of the file at a location. -/
def keyOf (l : Location) : String := (⟨.root, l⟩ : Path).toString

theorem exec_key_ok {q : Path} (h : S.files.realPath output = .ok q) (c : Cache) :
    exec (key output) (c, S) = (.ok q.toString, (c, S)) := by
  rw [key, exec_bind, exec_session, Session.exec_realPath_ok h]
  rfl

theorem exec_key_error {e : FileError} (h : S.files.realPath output = .error e) (c : Cache) :
    ∃ f, f.OfFiles ∧ exec (key output) (c, S) = (.error f, (c, S)) := by
  obtain ⟨f, hf, hexec⟩ := Session.exec_realPath_error h
  rw [key, exec_bind, exec_session, hexec]
  exact ⟨f, hf, rfl⟩

theorem exec_key (h : Direct S.files output) (hproper : ".." ∉ S.files.current) (c : Cache) :
    exec (key output) (c, S) = (.ok (keyOf (spot S.files output)), (c, S)) :=
  exec_key_ok (realPath_eq h hproper) c

/-! ### Operations -/

/-- The cache vouches for the file: it knows that the file was written from a document with this
digest, and the file is there. -/
def Vouches (c : Cache) (S : Session) (output : Path) (hash : String) : Prop :=
  ∃ s q e, known c S = .ok s ∧ S.files.realPath output = .ok q ∧ s.entry? q.toString = some e ∧
    e.hash = hash ∧ S.files.isFile? output = .ok true

/-- The cache knows that the file was written from a document with this digest, and it is there. -/
def KnowsCurrent (c : Cache) (S : Session) (output : Path) (hash : String) : Prop :=
  ∃ s e, known c S = .ok s ∧ s.entry? (keyOf (spot S.files output)) = some e ∧ e.hash = hash ∧
    S.files.isFile? output = .ok true

theorem vouches_iff_knowsCurrent (h : Direct S.files output) (hproper : ".." ∉ S.files.current) :
    Vouches c S output hash ↔ KnowsCurrent c S output hash := by
  constructor
  · rintro ⟨s, q, e, hs, hq, he, hrest⟩
    rw [realPath_eq h hproper] at hq
    cases hq
    exact ⟨s, e, hs, he, hrest⟩
  · rintro ⟨s, e, hs, he, hrest⟩
    exact ⟨s, _, e, hs, realPath_eq h hproper, he, hrest⟩

/-- Asking reads the state at most, and the answer is yes exactly if the cache vouches for the
file. There is no answer only if the cache cannot be read or a file operation fails. -/
theorem exec_upToDate (c : Cache) (S : Session) (output : Path) (hash : String) :
    ∃ r c' log, exec (upToDate output hash) (c, S) = (r, (c', { S with log })) ∧
      AtMostRead S c c' ∧ (∀ f, r = .error f → f.OfFiles ∨ known c S = .error f) ∧
      (∀ b, r = .ok b → ∃ s, known c S = .ok s ∧ c'.state = some s) ∧
      (r = .ok true ↔ Vouches c S output hash) := by
  rw [upToDate, Vouches]
  cases hknown : known c S with
  | error f =>
    obtain ⟨log, hcurrent⟩ := exec_current_error hknown
    rw [exec_bind_error hcurrent]
    exact ⟨_, c, log, rfl, .inl rfl, by simp, by simp, by simp⟩
  | ok s =>
    obtain ⟨c', log, hcurrent, hread, hstate, -⟩ := exec_current_ok hknown
    rw [exec_bind_ok hcurrent]
    cases hreal : S.files.realPath output with
    | error e =>
      obtain ⟨f, hf, hkey⟩ := exec_key_error (S := { S with log }) hreal c'
      rw [exec_bind_error hkey]
      exact ⟨_, c', log, rfl, hread, by simp [hf], by simp, by simp⟩
    | ok q =>
      have hkey := exec_key_ok (S := { S with log }) hreal c'
      rw [exec_bind_ok hkey]
      cases hentry : s.entry? q.toString with
      | none =>
        refine ⟨.ok false, c', log, rfl, hread, by simp, fun b _ => ⟨s, rfl, hstate⟩, ?_⟩
        simp [hentry]
      | some e =>
        dsimp only
        split
        · rename_i hhash
          refine ⟨(S.files.isFile? output).mapError Fault.file, c', log, ?_, hread, fun f hf => ?_,
            fun b _ => ⟨s, rfl, hstate⟩, ?_⟩
          · rw [exec_session, Session.exec_ask]
          · cases hfile : S.files.isFile? output with
            | ok b => simp [hfile] at hf
            | error e =>
              rw [hfile] at hf
              exact .inl (.inl ⟨e, (Except.error.inj hf).symm⟩)
          · cases hfile : S.files.isFile? output <;> simp [hentry, hhash]
        · rename_i hhash
          refine ⟨.ok false, c', log, rfl, hread, by simp, fun b _ => ⟨s, rfl, hstate⟩, ?_⟩
          simp [hentry, hhash]

theorem exec_record_ok {q : Path} (hreal : S.files.realPath output = .ok q)
    (hknown : known c S = .ok s) (hash : String) :
    ∃ log, exec (record output hash) (c, S) =
      (.ok (), (⟨c.path, some (s.record q.toString ⟨hash, S.now⟩), true⟩, { S with log })) := by
  obtain ⟨c', log, hcurrent, -, hstate, hpath⟩ := exec_current_ok hknown
  have hkey := exec_key_ok (S := { S with log }) hreal c'
  rw [record, exec_bind_ok hcurrent, exec_bind_ok hkey, exec_bind, exec_get]
  refine ⟨log, ?_⟩
  rw [← hpath]
  rfl

theorem exec_record_error (output : Path) (hknown : known c S = .error f) (hash : String) :
    ∃ log, exec (record output hash) (c, S) = (.error f, (c, { S with log })) := by
  obtain ⟨log, hcurrent⟩ := exec_current_error hknown
  rw [record, exec_bind_error hcurrent]
  exact ⟨log, rfl⟩

theorem exec_invalidate_ok (h : Direct S.files output) (hproper : ".." ∉ S.files.current)
    (hknown : known c S = .ok s) :
    ∃ c' log, exec (invalidate output) (c, S) = (.ok (), (c', { S with log })) ∧
      if (s.entry? (keyOf (spot S.files output))).isSome then
        c' = ⟨c.path, some (s.forget (keyOf (spot S.files output))), true⟩
      else AtMostRead S c c' := by
  obtain ⟨c', log, hcurrent, hread, hstate, hpath⟩ := exec_current_ok hknown
  have hkey := exec_key (S := { S with log }) h hproper c'
  rw [invalidate, exec_bind_ok hcurrent, exec_bind_ok hkey]
  split
  · refine ⟨_, log, ?_, rfl⟩
    rw [← hpath]
    rfl
  · exact ⟨c', log, rfl, hread⟩

theorem exec_invalidate_error (output : Path) (hknown : known c S = .error f) :
    ∃ log, exec (invalidate output) (c, S) = (.error f, (c, { S with log })) := by
  obtain ⟨log, hcurrent⟩ := exec_current_error hknown
  rw [invalidate, exec_bind_error hcurrent]
  exact ⟨log, rfl⟩

/-! ### Saving -/

/-- The temporary file beside a cache file. -/
def temporary (path : Path) : Path := path.withSuffix ".tmp"

/-- How replacing a file ends, and with which store. -/
inductive Replaces (path : Path) (text : String) (files : FileStore) :
    Except Fault Unit → FileStore → Prop
  /-- The temporary file could not be written. -/
  | unwritten {dirs : FileStore} (e : FileError) (made : Extends files dirs) :
      Replaces path text files (.error (.file e)) dirs
  /-- The temporary file could not be moved. -/
  | unmoved {dirs written : FileStore} (e : FileError) (made : files.makeDirs path.parent = (.ok (), dirs))
      (wrote : dirs.writeBytes (temporary path) text.toUTF8 = .ok written) :
      Replaces path text files (.error (.file e)) written
  | replaced {dirs written moved : FileStore} (made : files.makeDirs path.parent = (.ok (), dirs))
      (wrote : dirs.writeBytes (temporary path) text.toUTF8 = .ok written)
      (move : written.replace (temporary path) path = .ok moved) :
      Replaces path text files (.ok ()) moved

/-- **Replacing a file** ends in one of these ways. -/
theorem exec_replaceFile_ends (path : Path) (text : String) (S : Session) :
    ∃ r files, exec (replaceFile path text) S = (r, { S with files }) ∧
      Replaces path text S.files r files := by
  rcases hmade : S.files.makeDirs path.parent with ⟨made, dirs⟩
  rw [replaceFile, exec_bind, Session.exec_makeDirs, hmade]
  cases made with
  | error e => exact ⟨_, dirs, rfl, .unwritten e (extends_of_makeDirs hmade)⟩
  | ok u =>
    simp only [Except.mapError_ok]
    cases hwrite : dirs.writeBytes (temporary path) text.toUTF8 with
    | error e =>
      rw [exec_bind_error (Session.exec_change_error (S := { S with files := dirs }) hwrite)]
      exact ⟨_, dirs, rfl, .unwritten e (extends_of_makeDirs hmade)⟩
    | ok written =>
      rw [exec_bind_ok (Session.exec_change_ok (S := { S with files := dirs }) hwrite)]
      cases hreplace : written.replace (temporary path) path with
      | error e =>
        rw [Session.exec_change_error (S := { S with files := written }) hreplace]
        exact ⟨_, written, rfl, .unmoved e hmade hwrite⟩
      | ok moved =>
        rw [Session.exec_change_ok (S := { S with files := written }) hreplace]
        exact ⟨_, moved, rfl, .replaced hmade hwrite hreplace⟩

/-- Replacing a file touches the file and its temporary file only, and leaves the text there. -/
theorem exec_replaceFile (hpath : Direct S.files path) (htemp : Direct S.files (temporary path))
    (text : String) :
    ∃ r files, exec (replaceFile path text) S = (r, { S with files }) ∧
      ChangesOnly [spot S.files path, spot S.files (temporary path)] S.files files ∧
      (r = .ok () → Reaches files path ∧
        files.node? (spot S.files path) = some (.file text.toUTF8)) := by
  obtain ⟨r, files, hexec, hends⟩ := exec_replaceFile_ends path text S
  refine ⟨r, files, hexec, ?_⟩
  cases hends with
  | unwritten e hdirs => exact ⟨hdirs.changesOnly _, by simp⟩
  | unmoved e hmade hwrite =>
    exact ⟨(written_spec htemp (extends_of_makeDirs hmade) hwrite).1.mono (by simp), by simp⟩
  | replaced hmade hwrite hreplace =>
    obtain ⟨hwritten, -, hnode⟩ := written_spec htemp (extends_of_makeDirs hmade) hwrite
    have hchange : ChangesOnly [spot S.files path, spot S.files (temporary path)] S.files _ :=
      hwritten.mono (by simp)
    have hcurrent := hchange.keeps.current
    rw [← spot_eq hcurrent] at hnode
    obtain ⟨hmove, hreach, hthere⟩ := replaced_spec (htemp.mono hchange.keeps)
      (hpath.mono hchange.keeps) hnode hreplace
    rw [spot_eq hcurrent, spot_eq hcurrent] at hmove
    rw [spot_eq hcurrent] at hthere
    exact ⟨hchange.trans hmove, fun _ => ⟨hreach, hthere⟩⟩

/-- **Saving.** Nothing happens to a cache in memory or without changes. Otherwise the cache file
and its temporary file are touched, and unless saving fails the cache file then holds the state. -/
theorem exec_save (hpath : ∀ path ∈ c.path, Direct S.files path ∧ Direct S.files (temporary path)) :
    ∃ r c' files log, exec save (c, S) = (r, (c', { S with files, log })) ∧
      c'.path = c.path ∧ c'.state = c.state ∧
      ((c' = c ∧ files = S.files) ∨
        ∃ path s, c.path = some path ∧ c.state = some s ∧
          ChangesOnly [spot S.files path, spot S.files (temporary path)] S.files files ∧
          (c' = c ∧ c.changed = true ∨ Reaches files path ∧
            files.node? (spot S.files path) = some (.file (s.toJson.toText .ascii).toUTF8))) := by
  rw [save, exec_bind, exec_part]
  dsimp only
  split
  · rename_i s path hstate hfile
    split
    · rename_i hchanged
      obtain ⟨hdirect, htemp⟩ := hpath path hfile
      obtain ⟨r, files, hexec, hchange, hdone⟩ :=
        exec_replaceFile hdirect htemp (s.toJson.toText .ascii)
      rw [exec_bind, exec_session, hexec]
      cases r with
      | error f =>
        exact ⟨_, c, files, S.log, rfl, rfl, rfl,
          .inr ⟨path, s, hfile, hstate, hchange, .inl ⟨rfl, hchanged⟩⟩⟩
      | ok u =>
        exact ⟨_, { c with changed := false }, files, _, rfl, rfl, rfl,
          .inr ⟨path, s, hfile, hstate, hchange, .inr (hdone rfl)⟩⟩
    · exact ⟨_, c, S.files, _, rfl, rfl, rfl, .inl ⟨rfl, rfl⟩⟩
  · exact ⟨_, c, S.files, S.log, rfl, rfl, rfl, .inl ⟨rfl, rfl⟩⟩

/-- **Saving that succeeds.** There was nothing to save, or the state is in the file now. -/
theorem save_eq_ok {S' : Session}
    (hpath : ∀ path ∈ c.path, Direct S.files path ∧ Direct S.files (temporary path))
    (h : exec save (c, S) = (.ok (), (c', S'))) :
    c'.path = c.path ∧ c'.state = c.state ∧
      ((c' = c ∧ S'.files = S.files ∧ (c.state = none ∨ c.path = none ∨ c.changed = false)) ∨
        ∃ path s, c.path = some path ∧ c.state = some s ∧ c'.changed = false ∧
          ChangesOnly [spot S.files path, spot S.files (temporary path)] S.files S'.files ∧
          Reaches S'.files path ∧
          S'.files.node? (spot S.files path) = some (.file (s.toJson.toText .ascii).toUTF8)) := by
  rw [save, exec_bind, exec_part] at h
  dsimp only at h
  split at h
  · rename_i s path hstate hfile
    split at h
    · obtain ⟨hdirect, htemp⟩ := hpath path hfile
      obtain ⟨r, files, hexec, hchange, hdone⟩ :=
        exec_replaceFile hdirect htemp (s.toJson.toText .ascii)
      rw [exec_bind, exec_session, hexec] at h
      cases r with
      | error f => cases h
      | ok u =>
        cases h
        exact ⟨rfl, rfl, .inr ⟨path, s, hfile, hstate, rfl, hchange, hdone rfl⟩⟩
    · rename_i hclean
      cases h
      exact ⟨rfl, rfl, .inl ⟨rfl, rfl, .inr (.inr (by simpa using hclean))⟩⟩
  · rename_i hnone
    cases h
    refine ⟨rfl, rfl, .inl ⟨rfl, rfl, ?_⟩⟩
    cases hstate : c.state with
    | none => exact .inl rfl
    | some s =>
      cases hp : c.path with
      | none => exact .inr (.inl rfl)
      | some path => exact absurd hp (hnone s path hstate)

end Cache

end ModulePins
