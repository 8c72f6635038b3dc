import Mathlib
import ModulePins.Proofs.Emission.Emit

/-!
# Runs of an emission cache

A run is a sequence of steps on one cache and the files beside it: emissions, with force or without,
that return or are refused; forgetting an output file, deleting one, saving the cache, and opening
it anew when nothing is unsaved. Between the steps time passes. `Run` lists what happened with the
latest step first, and names the files by their locations, so that two spellings of one path count
as the same file.

`Setting` is what the steps rely on and do not change: the output files and the cache file are
reached without links, no output file is the cache file or its temporary file, and no two of the
documents have the same digest. A cache is `Blank` if it knows of no file, neither in its state nor,
when nothing is unsaved, in its file.

## Main definitions

* `Emission.Step`, `Emission.Run` — one step, and a run from a start
* `Emission.EmittedSince` — emitted, and not forgotten since
* `Emission.Setting`, `Emission.Blank` — the conditions at the start
-/

namespace ModulePins

namespace Cache

/-- The bytes of a cache file say that exactly these entries are known, whenever they are read. -/
def Holds (bytes : ByteArray) (entries : List (String × CacheEntry)) : Prop :=
  ∀ now, ∃ s, decode now bytes = .ok s ∧ s.entries = entries

end Cache

namespace Emission

open FileStore Cache ModulePins.Task

/-- The output files and the documents of a run. -/
structure Plan where
  outputs : Set Path
  documents : Set String

/-- What a run relies on. -/
structure Setting (plan : Plan) (c : Cache) (S : Session) : Prop where
  /-- Output files are reached without links. -/
  direct : ∀ o ∈ plan.outputs, Direct S.files o
  proper : ∀ o ∈ plan.outputs, ProperNames o.parts
  /-- Relative paths start from a directory as the system names it. -/
  properCurrent : ProperNames S.files.current
  realCurrent : ".." ∉ S.files.current
  /-- The cache file and its temporary file are reached without links. -/
  directCache : ∀ path ∈ c.path, Direct S.files path ∧ Direct S.files (temporary path)
  /-- No output file is one of those two. -/
  apart : ∀ path ∈ c.path, ∀ o ∈ plan.outputs,
    spot S.files o ∉ [spot S.files path, spot S.files (temporary path)]
  /-- No two documents have the same digest. -/
  distinct : ∀ d ∈ plan.documents, ∀ d' ∈ plan.documents, Digest.ofText d = Digest.ofText d' → d = d'

/-- A cache that knows of no file. -/
structure Blank (c : Cache) (S : Session) : Prop where
  state : ∀ s ∈ c.state, s.entries = [] ∧ Number.isReadable s.version = true
  unread : c.state = none → c.changed = false
  /-- When nothing is unsaved, a cache file that is there knows of no file either. -/
  file : c.changed = false → ∀ path ∈ c.path, ∀ b,
    S.files.node? (spot S.files path) = some (.file b) → Holds b []

section Empty

variable {c : Cache} {S : Session}

/-- Where there are no files yet, a document may be emitted to any file but those of the cache. -/
theorem setting_of_empty {output : Path} {document : String} (hfiles : S.files = FileStore.empty)
    (hproper : ProperNames output.parts)
    (hapart : ∀ path ∈ c.path,
      spot S.files output ∉ [spot S.files path, spot S.files (temporary path)]) :
    Setting ⟨{output}, {document}⟩ c S := by
  have hdirect : ∀ p, Direct S.files p := by
    rw [hfiles]
    exact direct_of_no_link fun l t h => by cases eq_directory_of_node?_empty h
  exact
    { direct := fun o _ => hdirect o
      proper := fun o ho => ho ▸ hproper
      properCurrent := by
        rw [hfiles]
        exact fun n hn => absurd hn List.not_mem_nil
      realCurrent := by
        rw [hfiles]
        exact List.not_mem_nil
      directCache := fun path _ => ⟨hdirect path, hdirect _⟩
      apart := fun path hp o ho => ho ▸ hapart path hp
      distinct := fun d hd d' hd' _ => hd.trans hd'.symm }

theorem blank_of_empty (path : Option Path) (hfiles : S.files = FileStore.empty) :
    Blank (Cache.opened path) S := by
  refine ⟨fun s hs => (by cases hs), fun _ => rfl, fun _ path _ b hb => ?_⟩
  rw [hfiles] at hb
  cases eq_directory_of_node?_empty hb

/-- The files when a document has been written to `/module/out.json`, and nothing else. -/
def firstWritten (bytes : ByteArray) : FileStore where
  nodes := [(["module"], .directory), (["module", "out.json"], .file bytes)]
  current := []

/-- The first emission is a new one. -/
theorem exec_emit_first (hfiles : S.files = FileStore.empty) (hknown : known c S = .ok .empty)
    (document : String) (coordinate : Coordinate) :
    ∃ s log, exec (emit false document (Path.ofString "/module/out.json") coordinate) (c, S) =
      (.ok (outcome .written document (Path.ofString "/module/out.json") coordinate),
        (⟨c.path, some s, true⟩, { S with files := firstWritten document.toUTF8, log })) := by
  have hreal : S.files.realPath (Path.ofString "/module/out.json") =
      .ok ⟨.root, ["module", "out.json"]⟩ := by
    rw [hfiles]
    cbv
  have hmade : S.files.makeDirs (Path.ofString "/module/out.json").parent =
      (.ok (), ⟨[(["module"], .directory)], []⟩) := by
    rw [hfiles]
    cbv
  have hwrote : (⟨[(["module"], .directory)], []⟩ : FileStore).writeBytes
      (Path.ofString "/module/out.json") document.toUTF8 = .ok (firstWritten document.toUTF8) := by
    cbv
  have hreal' : (firstWritten document.toUTF8).realPath (Path.ofString "/module/out.json") =
      .ok ⟨.root, ["module", "out.json"]⟩ := by cbv
  obtain ⟨log, hexec⟩ := exec_emit_new hknown hreal rfl hmade hwrote hreal' coordinate
  exact ⟨_, log, hexec⟩

end Empty

/-- The output is a directory, or a file stands in the place of one above it. -/
def Blocked (f : Fault) : Prop :=
  ∃ e, f = .file e ∧
    (e.cause = .isADirectory ∨ e.cause = .notADirectory ∨ e.cause = .alreadyExists)

/-- What happened at a step, and to which file. -/
inductive Event where
  | emitted (l : Location)
  | refused
  | invalidated (l : Location)
  | deleted
  | saved
  | reopened
  | elapsed

/-- One step of a run. -/
inductive Step (plan : Plan) : Cache × Session → Event → Cache × Session → Prop
  | emitted {c : Cache} {S : Session} {force : Bool} {document : String} {output : Path}
      {coordinate : Coordinate} {e : Emission} {st' : Cache × Session} (ho : output ∈ plan.outputs)
      (hd : document ∈ plan.documents)
      (h : exec (emit force document output coordinate) (c, S) = (.ok e, st')) :
      Step plan (c, S) (.emitted (spot S.files output)) st'
  | refused {st st' : Cache × Session} {force : Bool} {document : String} {output : Path}
      {coordinate : Coordinate} {f : Fault} (ho : output ∈ plan.outputs)
      (hd : document ∈ plan.documents)
      (h : exec (emit force document output coordinate) st = (.error f, st')) (hf : Blocked f) :
      Step plan st .refused st'
  | invalidated {c : Cache} {S : Session} {output : Path} {st' : Cache × Session}
      (ho : output ∈ plan.outputs) (h : exec (Cache.invalidate output) (c, S) = (.ok (), st')) :
      Step plan (c, S) (.invalidated (spot S.files output)) st'
  /-- Output files are deleted as files. -/
  | deleted {c : Cache} {S : Session} {output : Path} {files : FileStore}
      (ho : output ∈ plan.outputs) (hfile : S.files.isFile? output = .ok true)
      (h : S.files.remove output = .ok files) : Step plan (c, S) .deleted (c, { S with files })
  /-- Saving may fail. -/
  | saved {st st' : Cache × Session} {r : Except Fault Unit} (h : exec Cache.save st = (r, st')) :
      Step plan st .saved st'
  | reopened {c : Cache} {S : Session} (h : c.changed = false) :
      Step plan (c, S) .reopened (Cache.opened c.path, S)
  /-- Time passes, and others write to the log. -/
  | elapsed {c : Cache} {S S' : Session} (h : S'.files = S.files) : Step plan (c, S) .elapsed (c, S')

/-- A run, with its latest event first. -/
inductive Run (plan : Plan) (start : Cache × Session) : List Event → Cache × Session → Prop
  | start : Run plan start [] start
  | step {events : List Event} {event : Event} {st st' : Cache × Session}
      (run : Run plan start events st) (step : Step plan st event st') :
      Run plan start (event :: events) st'

/-- The file was emitted, and has not been invalidated since. -/
def EmittedSince (l : Location) (events : List Event) : Prop :=
  ∃ later earlier, events = later ++ .emitted l :: earlier ∧ .invalidated l ∉ later

section EmittedSince

variable {l : Location} {events : List Event} {event : Event}

theorem not_emittedSince_nil : ¬ EmittedSince l [] := by
  rintro ⟨later, earlier, h, -⟩
  simp at h

theorem emittedSince_emitted : EmittedSince l (.emitted l :: events) :=
  ⟨[], events, rfl, List.not_mem_nil⟩

theorem EmittedSince.cons (h : EmittedSince l events) (hne : event ≠ .invalidated l) :
    EmittedSince l (event :: events) := by
  obtain ⟨later, earlier, rfl, hlater⟩ := h
  refine ⟨event :: later, earlier, rfl, fun hmem => ?_⟩
  rcases List.mem_cons.mp hmem with heq | hmem
  · exact hne heq.symm
  · exact hlater hmem

theorem EmittedSince.of_cons (h : EmittedSince l (event :: events)) (hne : event ≠ .emitted l) :
    EmittedSince l events ∧ event ≠ .invalidated l := by
  obtain ⟨later, earlier, heq, hlater⟩ := h
  cases later with
  | nil => exact absurd (List.cons.inj heq).1 hne
  | cons first later =>
    obtain ⟨rfl, rfl⟩ := List.cons.inj heq
    rw [List.mem_cons, not_or] at hlater
    exact ⟨⟨later, earlier, rfl, hlater.2⟩, Ne.symm hlater.1⟩

/-- An event about no file, or about another one, does not matter. -/
theorem emittedSince_cons_iff (hne : event ≠ .emitted l) (hne' : event ≠ .invalidated l) :
    EmittedSince l (event :: events) ↔ EmittedSince l events :=
  ⟨fun h => (h.of_cons hne).1, fun h => h.cons hne'⟩

theorem not_emittedSince_invalidated : ¬ EmittedSince l (.invalidated l :: events) :=
  fun h => (h.of_cons (by simp)).2 rfl

end EmittedSince

end Emission

end ModulePins
