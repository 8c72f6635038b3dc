import Mathlib
import ModulePins.Proofs.Emission.Invariant

/-!
# Incremental emission is exact

After any run from a blank cache, an emission that returns leaves the document in its file, and it
leaves the file alone exactly if there is no need to write: it is not forced, the file was emitted
and not invalidated since, and it still holds the document. An emission that is refused changes no
regular file, and the cache at most by reading it.

Saving, opening the cache anew, deleting files and refused emissions may come in between in any
order; `Run.tracks` has dealt with them.

## Main results

* `Emission.emit_exact` — what an emission does after any run
-/

namespace ModulePins

namespace Emission

open FileStore Cache ModulePins.Task

variable {plan : Plan} {events : List Event} {es : List (String × CacheEntry)} {c c' : Cache}
  {S S' : Session} {document : String} {output : Path}

/-- What the cache knows of the file is what happened to it and what it holds. -/
theorem Tracks.knowsCurrent_iff (h : Tracks plan events es c S) (ho : output ∈ plan.outputs)
    (hd : document ∈ plan.documents) :
    KnowsCurrent c S output (Digest.ofText document) ↔
      EmittedSince (spot S.files output) events ∧
        S.files.readBytes output = .ok document.toUTF8 := by
  have hdirect := h.setting.direct output ho
  rw [readBytes_eq_ok_iff hdirect, ← h.history output ho]
  constructor
  · rintro ⟨s, e, hs, he, hhash, hfile⟩
    obtain ⟨hr, b, hb⟩ := (isFile?_eq_true_iff hdirect).mp hfile
    have hentry : entryAt es (keyOf (spot S.files output)) = some e := by
      rw [← (h.entries_of_known hs).1]
      exact he
    obtain ⟨d, hd', hhash', hbytes⟩ := h.agrees output ho e hentry
    have hsame : d = document :=
      h.setting.distinct d hd' document hd (hhash'.symm.trans hhash)
    refine ⟨by rw [hentry]; rfl, hr, ?_⟩
    rw [hb, hbytes b hb, hsame]
  · rintro ⟨hsome, hr, hb⟩
    obtain ⟨e, hentry⟩ := Option.isSome_iff_exists.mp hsome
    obtain ⟨d, -, hhash, hbytes⟩ := h.agrees output ho e hentry
    have hsame : document = d := String.toByteArray_inj.mp (hbytes _ hb)
    have hne : es ≠ [] := by
      rintro rfl
      cases hentry
    obtain ⟨s, hs⟩ := h.knows.exists_known h.setting.directCacheFile hne
    refine ⟨s, e, hs, ?_, hsame ▸ hhash, (isFile?_eq_true_iff hdirect).mpr ⟨hr, _, hb⟩⟩
    rw [entry?_eq_entryAt, (h.entries_of_known hs).1]
    exact hentry

/-- **Incremental emission is exact.** -/
theorem emit_exact {start : Cache × Session} (hsetting : Setting plan start.1 start.2)
    (hblank : Blank start.1 start.2) (hrun : Run plan start events (c, S))
    (ho : output ∈ plan.outputs) (hd : document ∈ plan.documents) {force : Bool}
    {coordinate : Coordinate} {r : Except Fault Emission}
    (hemit : exec (emit force document output coordinate) (c, S) = (r, (c', S'))) :
    (∀ e, r = .ok e → S'.files.readBytes output = .ok document.toUTF8 ∧
      (e.status = .upToDate → S'.files = S.files ∧ AtMostRead S c c')) ∧
    ((∃ e, r = .ok e ∧ e.status = .upToDate) ↔
      force = false ∧ EmittedSince (spot S.files output) events ∧
        S.files.readBytes output = .ok document.toUTF8) ∧
    (∀ f, r = .error f → Blocked f → AtMostRead S c c' ∧
      ∀ l b, S'.files.node? l = some (.file b) ↔ S.files.node? l = some (.file b)) := by
  obtain ⟨es, htracks⟩ := hrun.tracks hsetting hblank
  have hdirect := htracks.setting.direct output ho
  have hknows := htracks.knowsCurrent_iff ho hd
  obtain ⟨r', c'', files, log, hexec, hemits⟩ :=
    exec_emit hdirect htracks.setting.realCurrent force document c coordinate
  rw [hemit] at hexec
  cases hexec
  rw [← hknows]
  cases hemits with
  | upToDate hstatus hforce hcurrent hread =>
    refine ⟨fun e he => ⟨(hknows.mp hcurrent).2, fun _ => ⟨rfl, hread⟩⟩, ?_, fun f hf => (by cases hf)⟩
    exact iff_of_true ⟨_, rfl, hstatus⟩ ⟨hforce, hcurrent⟩
  | written hstatus hdue hread hmade hwrote _ =>
    obtain ⟨hchange, hreach, hnode⟩ := written_spec hdirect hmade hwrote
    refine ⟨fun e he => ⟨?_, fun hup => ?_⟩, iff_of_false ?_ hdue, fun f hf => (by cases hf)⟩
    · refine (readBytes_eq_ok_iff (hdirect.mono hchange.keeps)).mpr ⟨hreach, ?_⟩
      rw [spot_eq hchange.keeps.current]
      exact hnode
    · cases he
      rw [hstatus] at hup
      cases hup
    · rintro ⟨e, he, hup⟩
      cases he
      rw [hstatus] at hup
      cases hup
  | refused hdue hread hext =>
    refine ⟨fun e he => (by cases he), iff_of_false ?_ hdue, fun _ _ _ => ⟨hread, fun l b => ?_⟩⟩
    · rintro ⟨e, he, -⟩
      cases he
    · exact hext.file_iff
  | unnoted hdue _ hunreadable =>
    refine ⟨fun e he => (by cases he), iff_of_false ?_ hdue, fun f hf hblocked => ?_⟩
    · rintro ⟨e, he, -⟩
      cases he
    · cases hf
      exact absurd hblocked (not_blocked_of_stored_eq_error hunreadable)

/-- A document is emitted twice to a cache in memory: the second time it is there already. -/
theorem emit_twice :
    let emission := emit false "{}" (Path.ofString "/module/out.json") ⟨"g", "a", "1"⟩
    let start : Cache × Session :=
      (Cache.opened none, ⟨FileStore.empty, [], Path.ofString "/", Stamp.epoch⟩)
    ∃ e, (exec emission (exec emission start).2).1 = .ok e ∧ e.status = .upToDate := by
  intro emission start
  let output := Path.ofString "/module/out.json"
  let plan : Plan := ⟨{output}, {"{}"}⟩
  have hsetting : Setting plan start.1 start.2 :=
    setting_of_empty rfl (Path.properNames_ofString "/module/out.json") fun path hp => by cases hp
  have hblank : Blank start.1 start.2 := blank_of_empty none rfl
  obtain ⟨_, _, hexec⟩ := exec_emit_first (c := start.1) (S := start.2) rfl rfl "{}" ⟨"g", "a", "1"⟩
  obtain ⟨e, he⟩ : ∃ e, (exec emission start).1 = .ok e := ⟨_, congrArg Prod.fst hexec⟩
  have hfirst : exec emission start = (.ok e, (exec emission start).2) := Prod.ext he rfl
  have hrun : Run plan start [.emitted (spot start.2.files output)] (exec emission start).2 :=
    .step .start (.emitted rfl rfl hfirst)
  have hread := ((emit_exact hsetting hblank .start rfl rfl hfirst).1 e rfl).1
  exact ((emit_exact hsetting hblank hrun rfl rfl rfl).2.1).mpr
    ⟨rfl, emittedSince_emitted, hread⟩

end Emission

end ModulePins
