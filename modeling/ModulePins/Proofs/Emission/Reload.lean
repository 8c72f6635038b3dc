import Mathlib
import ModulePins.Proofs.Emission.Saving
import ModulePins.Proofs.FileStore.Replacing

/-!
# A cache and its file

Whatever a cache is asked for, and whether or not it can do it, what it knows and what its file says
differ only while it is noted as changed: that is `Backed`, and every single call keeps it. Hence
after saving, a cache that is opened anew knows the same.

The file may be reached through links, and may even be a link itself, which is gone after the first
time that the cache is saved. What has been moved is found again then if the directory of the file
does not depend on that link (`FileStore.Detached`), and if the temporary file is no link, since
otherwise that link is what would be moved.

## Main definitions

* `Cache.Call`, `Cache.calls` — what a cache can be asked for, and a sequence of it
* `Cache.Savable` — what is moved to the place of the cache file will be found there
* `Cache.Backed` — what is not in the file is noted as a change

## Main results

* `Cache.Backed.call`, `Cache.Backed.calls` — each call, and hence every sequence of calls, keeps a
  cache backed by its file
* `Cache.reload_of_save` — a new cache reads what has been saved
-/

namespace ModulePins

namespace Cache

open FileStore ModulePins.Task

variable {c c' : Cache} {S S' T : Session} {s : CacheState} {f : Fault} {path output : Path}
  {now : Stamp} {files files' : FileStore}

/-! ### Calls -/

/-- What a cache can be asked for. -/
inductive Call where
  | load
  | record (output : Path) (hash : String)
  | invalidate (output : Path)
  | upToDate (output : Path) (hash : String)
  | save

/-- Does what the cache is asked for; the answers do not matter. -/
def Call.task : Call → Caching Unit
  | load => (fun _ => ()) <$> Cache.load
  | record output hash => Cache.record output hash
  | invalidate output => Cache.invalidate output
  | upToDate output hash => (fun _ => ()) <$> Cache.upToDate output hash
  | save => Cache.save

/-- One call after the other, each at its time. A call may fail, and the next one follows. -/
def calls : List (Stamp × Call) → Cache × Session → Cache × Session
  | [], st => st
  | (now, a) :: rest, (c, S) => calls rest (exec a.task (c, { S with now })).2

/-! ### The file -/

/-- What is moved to the place of the cache file will be found there. -/
structure Savable (files : FileStore) (path : Path) : Prop where
  homed : Homed files
  solid : Solid files files.current
  temporary : ¬ EndsInLink files (temporary path)
  detached : Detached files path

theorem Savable.mono (h : Savable files path) (hlinks : SameLinks files files') :
    Savable files' path where
  homed := h.homed.mono hlinks
  solid := hlinks.current ▸ h.solid.mono hlinks.toKeeps
  temporary := mt hlinks.endsInLink h.temporary
  detached := hlinks.detached h.detached

/-- However replacing the file ends, the file can be replaced again. -/
theorem Savable.replaces {text : String} {r : Except Fault Unit} (h : Savable files path)
    (hends : Replaces path text files r files') :
    Savable files' path ∧ (r = .ok () →
      ∃ l, files'.locate path true = .ok l ∧ files'.node? l = some (.file text.toUTF8)) := by
  cases hends with
  | unwritten e hdirs => exact ⟨h.mono hdirs.sameLinks, by simp⟩
  | unmoved e hmade hwrote =>
    have hwritten := (written_touches h.homed (extends_of_makeDirs hmade) hwrote).1
    exact ⟨h.mono hwritten.toSameLinks, by simp⟩
  | replaced hmade hwrote hmove =>
    obtain ⟨hwritten, l, -, -, hl, hnode⟩ :=
      written_touches h.homed (extends_of_makeDirs hmade) hwrote
    have hthen := h.mono hwritten.toSameLinks
    obtain ⟨⟨hhome, hsolid, htemp, hdetached⟩, hthere⟩ := replaced_detached hthen.homed hthen.solid
      hthen.temporary hthen.detached (name_temporary path) (parent_temporary path)
      (readBytes_eq_ok_iff_locate.mpr ⟨l, hl, hnode⟩) hmove
    exact ⟨⟨hhome, hsolid, htemp, hdetached⟩, fun _ => hthere⟩

/-- Whoever reads the cache file comes to know this state, but perhaps for times. -/
def Says (files : FileStore) (path : Path) (s : CacheState) : Prop :=
  ∀ now, ∃ s', stored now files (some path) = .ok s' ∧ s.Alike s'

theorem says_of_stored (h : stored now files (some path) = .ok s) : Says files path s :=
  stored_time h

/-! ### What every call keeps -/

/-- The file of a cache can be saved, and what it does not say is noted as a change. -/
structure Backed (path : Path) (c : Cache) (files : FileStore) : Prop where
  path_eq : c.path = some path
  savable : Savable files path
  sound : ∀ s ∈ c.state, s.Sound
  /-- What has not been read yet can be read. -/
  unread : c.state = none → ∃ s, Says files path s
  /-- Without changes, the file says what the cache knows. -/
  inStep : c.changed = false → ∀ s ∈ c.state, Says files path s

/-- A cache that has just read this state. -/
theorem Backed.loaded (h : Backed path c files) (hs : stored now files c.path = .ok s) :
    Backed path ⟨c.path, some s, false⟩ files where
  path_eq := h.path_eq
  savable := h.savable
  sound := fun s' hs' => by
    cases hs'
    exact sound_of_stored hs
  unread := fun hnone => by cases hnone
  inStep := fun _ s' hs' => by
    cases hs'
    rw [h.path_eq] at hs
    exact says_of_stored hs

/-- A cache that knows another state now, and notes that. -/
theorem Backed.changed (h : Backed path c files) (hs : s.Sound) :
    Backed path ⟨c.path, some s, true⟩ files where
  path_eq := h.path_eq
  savable := h.savable
  sound := fun s' hs' => by
    cases hs'
    exact hs
  unread := fun hnone => by cases hnone
  inStep := fun hclean => by cases hclean

theorem Backed.read (h : Backed path c S.files) (hread : AtMostRead S c c') :
    Backed path c' S.files := by
  rcases hread with rfl | ⟨-, s, hs, rfl⟩
  · exact h
  · exact h.loaded hs

theorem backed_load (h : Backed path c S.files) :
    Backed path (exec load (c, S)).2.1 (exec load (c, S)).2.2.files := by
  obtain ⟨log, hload⟩ := exec_load c S
  rw [hload]
  cases hs : stored S.now S.files c.path with
  | error f => exact h
  | ok s => exact h.loaded hs

theorem backed_upToDate (h : Backed path c S.files) (output : Path) (hash : String) :
    Backed path (exec (upToDate output hash) (c, S)).2.1
      (exec (upToDate output hash) (c, S)).2.2.files := by
  obtain ⟨r, c', log, hexec, hread, -⟩ := exec_upToDate c S output hash
  rw [hexec]
  exact h.read hread

/-- Recording and invalidating start alike: with the state and the key. -/
theorem backed_keyed (h : Backed path c S.files) (output : Path)
    (after : CacheState → String → Caching Unit)
    (hafter : ∀ s key c' log, s.Sound → AtMostRead S c c' → c'.state = some s →
      Backed path (exec (after s key) (c', { S with log })).2.1
        (exec (after s key) (c', { S with log })).2.2.files) :
    Backed path (exec (do let s ← current; after s (← key output)) (c, S)).2.1
      (exec (do let s ← current; after s (← key output)) (c, S)).2.2.files := by
  cases hknown : known c S with
  | error f =>
    obtain ⟨log, hcurrent⟩ := exec_current_error hknown
    rw [exec_bind_error hcurrent]
    exact h
  | ok s =>
    obtain ⟨c', log, hcurrent, hread, hstate, -⟩ := exec_current_ok hknown
    rw [exec_bind_ok hcurrent]
    cases hreal : S.files.realPath output with
    | error e =>
      obtain ⟨f, -, hkey⟩ := exec_key_error (S := { S with log }) hreal c'
      rw [exec_bind_error hkey]
      exact h.read hread
    | ok q =>
      rw [exec_bind_ok (exec_key_ok (S := { S with log }) hreal c')]
      exact hafter s _ c' log (sound_of_known h.sound hknown) hread hstate

theorem backed_record (h : Backed path c S.files) (output : Path) (hash : String) :
    Backed path (exec (record output hash) (c, S)).2.1
      (exec (record output hash) (c, S)).2.2.files := by
  rw [record]
  refine backed_keyed h output _ fun s key c' log hs hread _ => ?_
  exact (h.read hread).changed (hs.record key ⟨hash, S.now⟩)

theorem backed_invalidate (h : Backed path c S.files) (output : Path) :
    Backed path (exec (invalidate output) (c, S)).2.1
      (exec (invalidate output) (c, S)).2.2.files := by
  rw [invalidate]
  refine backed_keyed h output _ fun s key c' log hs hread _ => ?_
  split
  · exact (h.read hread).changed (hs.forget key)
  · exact h.read hread

/-- **Saving** keeps a cache backed, and if it does not fail the file says what the cache knows. -/
theorem backed_save (h : Backed path c S.files) :
    Backed path (exec save (c, S)).2.1 (exec save (c, S)).2.2.files ∧
      ((exec save (c, S)).1 = .ok () →
        ∀ s ∈ c.state, Says (exec save (c, S)).2.2.files path s) := by
  rw [save, exec_bind, exec_part]
  dsimp only
  split
  · rename_i s path' hstate hfile
    rw [h.path_eq] at hfile
    cases hfile
    split
    · rename_i hchanged
      obtain ⟨r, files, hexec, hends⟩ :=
        exec_replaceFile_ends path (s.toJson.toText .ascii) S
      obtain ⟨hsavable, hthere⟩ := h.savable.replaces hends
      rw [exec_bind, exec_session, hexec]
      cases r with
      | error f =>
        refine ⟨⟨h.path_eq, hsavable, h.sound, fun hnone => ?_, fun hclean => ?_⟩, by simp⟩
        · rw [hstate] at hnone
          cases hnone
        · rw [hchanged] at hclean
          cases hclean
      | ok u =>
        obtain ⟨l, hl, hnode⟩ := hthere rfl
        have hsays : ∀ s ∈ c.state, Says files path s := by
          intro s' hs'
          rw [hstate] at hs'
          cases hs'
          exact says_of_stored ((stored_eq_decode_of_locate hl hnode _).trans
            (decode_toText (h.sound s hstate) Stamp.epoch))
        refine ⟨⟨h.path_eq, hsavable, h.sound, fun hnone => ?_, fun _ => hsays⟩, fun _ => hsays⟩
        rw [hstate] at hnone
        cases hnone
    · rename_i hclean
      exact ⟨h, fun _ => h.inStep (by simpa using hclean)⟩
  · rename_i hnone
    exact ⟨h, fun _ s hs => absurd h.path_eq (hnone s path hs)⟩

/-- **Every call** keeps a cache backed by its file. -/
theorem Backed.call (h : Backed path c S.files) (a : Call) :
    Backed path (exec a.task (c, S)).2.1 (exec a.task (c, S)).2.2.files := by
  cases a with
  | load =>
    rw [Call.task, exec_map]
    exact backed_load h
  | record output hash => exact backed_record h output hash
  | invalidate output => exact backed_invalidate h output
  | upToDate output hash =>
    rw [Call.task, exec_map]
    exact backed_upToDate h output hash
  | save => exact (backed_save h).1

/-- **Every sequence of calls** keeps a cache backed by its file. -/
theorem Backed.calls (h : Backed path c S.files) (cs : List (Stamp × Call)) :
    Backed path (Cache.calls cs (c, S)).1 (Cache.calls cs (c, S)).2.files := by
  induction cs generalizing c S with
  | nil => exact h
  | cons call cs ih =>
    obtain ⟨now, a⟩ := call
    exact ih (Backed.call (S := { S with now }) h a)

/-- A cache is backed by a file that can be read. -/
theorem backed_opened (hsavable : Savable files path)
    (hs : stored now files (some path) = .ok s) : Backed path (opened (some path)) files where
  path_eq := rfl
  savable := hsavable
  sound := fun s hs => by cases hs
  unread := fun _ => ⟨s, says_of_stored hs⟩
  inStep := fun _ s hs => by cases hs

/-- A cache of which nothing is known is told of a file and saved. -/
theorem exec_save_record {dirs written moved : FileStore} {q : Path} {hash : String}
    (hempty : stored now S.files (some path) = .ok .empty)
    (hreal : S.files.realPath output = .ok q)
    (hmade : S.files.makeDirs path.parent = (.ok (), dirs))
    (hwrote : dirs.writeBytes (temporary path)
      ((CacheState.empty.record q.toString ⟨hash, now⟩).toJson.toText .ascii).toUTF8 = .ok written)
    (hmoved : written.replace (temporary path) path = .ok moved) :
    ∃ log, exec save (calls [(now, .record output hash)] (opened (some path), S)) =
      (.ok (), (⟨some path, some (CacheState.empty.record q.toString ⟨hash, now⟩), false⟩,
        { S with now, files := moved, log })) := by
  obtain ⟨log, hrecord⟩ := exec_record_ok (S := { S with now }) (c := opened (some path)) hreal
    hempty hash
  rw [calls, Call.task, hrecord]
  exact exec_save_ok (S := { S with now, log }) rfl rfl rfl hmade hwrote hmoved

/-- A session over a store, before anything has happened. -/
def sessionOver (files : FileStore) : Session := ⟨files, [], ⟨.root, []⟩, Stamp.epoch⟩

def cachePath : Path := ⟨.root, ["c"]⟩

def notedPath : Path := ⟨.root, ["o"]⟩

/-- The cache file is a link that leads nowhere. -/
def danglingCache : FileStore := ⟨[(["c"], .link "x")], []⟩

/-- The cache that has been told of the output file and saved. -/
def toldCache (path : Path) : Cache :=
  ⟨some path, some ⟨1, [("/o", ⟨"\"é", Stamp.epoch⟩)]⟩, false⟩

/-- The cache knows of a file and is saved, and a new cache of the same file knows of nothing. -/
def Forgets (files : FileStore) (path : Path) : Prop :=
  ∃ S', WellFormed files ∧ (exec load (opened (some path), sessionOver files)).1 = .ok .empty ∧
    exec save (calls [(Stamp.epoch, .record notedPath "\"é")]
      (opened (some path), sessionOver files)) = (.ok (), (toldCache path, S')) ∧
    (exec current (toldCache path, S')).1 = .ok ⟨1, [("/o", ⟨"\"é", Stamp.epoch⟩)]⟩ ∧
    (exec load (opened (some path), S')).1 = .ok .empty

theorem forgets_of_stored {files written moved : FileStore} (hwell : WellFormed files)
    (hempty : stored Stamp.epoch files (some path) = .ok .empty)
    (hreal : files.realPath notedPath = .ok notedPath)
    (hmade : files.makeDirs path.parent = (.ok (), files))
    (hwrote : files.writeBytes (temporary path)
      ((CacheState.empty.record notedPath.toString ⟨"\"é", Stamp.epoch⟩).toJson.toText
        .ascii).toUTF8 = .ok written)
    (hmoved : written.replace (temporary path) path = .ok moved)
    (hlost : stored Stamp.epoch moved (some path) = .ok .empty) : Forgets files path := by
  obtain ⟨log, hsave⟩ := exec_save_record (S := sessionOver files) hempty hreal hmade hwrote hmoved
  exact ⟨_, hwell, (load_fst _ _).trans hempty, hsave, current_fst _ _, (load_fst _ _).trans hlost⟩

/-- The temporary file is a link to the cache file. -/
def linkedToCache : FileStore := ⟨[(["c.tmp"], .link "c")], []⟩

/-- The cache file is a link to a directory, by way of which its own directory is reached. -/
def linkedAbove : FileStore := ⟨[(["z"], .directory), (["c"], .link "z")], []⟩

def roundabout : Path := ⟨.root, ["c", "..", "c"]⟩

end Cache

end ModulePins
