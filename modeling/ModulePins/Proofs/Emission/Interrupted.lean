import Mathlib
import ModulePins.Proofs.Emission.Invariant

/-!
# Processes that stop early

A process may stop before it has saved its cache. The next one reads the cache file as it was last
saved, but the output files are as they were last written, so the two need not agree: what the
cache remembers of a file is then older than what the file holds. An emission that finds its
document remembered leaves the file alone all the same.

Runs are followed here through two functions of what has happened. `written` is the document that a
file holds, and `remembered` is the one that the cache has an entry for: in memory, where a write is
noted at once, and in the cache file, where it arrives by saving. Stopping forgets the former. An
emission decides by what is remembered in memory, and what the file holds does not matter for it.

The two agree unless a write to the file was `Lost`, which means that a process stopped before it
saved the note of it, and that the file has not been written again. So an emission may skip a write
that is needed, for example of a document that was saved, then replaced by one whose note was lost,
and is now emitted again.

## Main definitions

* `Interrupted.Step`, `Interrupted.Run` — emissions, saving, and stopping, in any order
* `Interrupted.written`, `Interrupted.remembered` — what a file holds, and what the cache remembers
* `Interrupted.Lost` — a process stopped before it saved

## Main results

* `Interrupted.remembered_eq_written` — the cache is right unless a write was lost
* `Interrupted.emit_exact_across_stops` — what an emission decides by, and when it is right
-/

namespace ModulePins

namespace Emission

namespace Interrupted

open FileStore Cache ModulePins.Task

/-! ### Runs -/

/-- What happened at a step, to which file, and with which document. -/
inductive Event where
  | wrote (l : Location) (document : String)
  | kept (l : Location)
  | refused
  | saved
  | stopped
  | elapsed

/-- One step of a run. -/
inductive Step (plan : Plan) : Cache × Session → Event → Cache × Session → Prop
  | wrote {c : Cache} {S : Session} {force : Bool} {document : String} {output : Path}
      {coordinate : Coordinate} {e : Emission} {st' : Cache × Session} (ho : output ∈ plan.outputs)
      (hd : document ∈ plan.documents)
      (h : exec (emit force document output coordinate) (c, S) = (.ok e, st'))
      (he : e.status = .written) : Step plan (c, S) (.wrote (spot S.files output) document) st'
  | kept {c : Cache} {S : Session} {force : Bool} {document : String} {output : Path}
      {coordinate : Coordinate} {e : Emission} {st' : Cache × Session} (ho : output ∈ plan.outputs)
      (hd : document ∈ plan.documents)
      (h : exec (emit force document output coordinate) (c, S) = (.ok e, st'))
      (he : e.status = .upToDate) : Step plan (c, S) (.kept (spot S.files output)) st'
  | refused {st st' : Cache × Session} {force : Bool} {document : String} {output : Path}
      {coordinate : Coordinate} {f : Fault} (ho : output ∈ plan.outputs)
      (hd : document ∈ plan.documents)
      (h : exec (emit force document output coordinate) st = (.error f, st')) (hf : Blocked f) :
      Step plan st .refused st'
  | saved {st st' : Cache × Session} (h : exec Cache.save st = (.ok (), st')) :
      Step plan st .saved st'
  /-- The process stops, and the next one opens the same cache file. -/
  | stopped {c : Cache} {S S' : Session} (h : S'.files = S.files) :
      Step plan (c, S) .stopped (Cache.opened c.path, S')
  /-- Time passes, and others write to the log. -/
  | elapsed {c : Cache} {S S' : Session} (h : S'.files = S.files) : Step plan (c, S) .elapsed (c, S')

/-- A run, with its latest event first. -/
inductive Run (plan : Plan) (start : Cache × Session) : List Event → Cache × Session → Prop
  | start : Run plan start [] start
  | step {events : List Event} {event : Event} {st st' : Cache × Session}
      (run : Run plan start events st) (step : Step plan st event st') :
      Run plan start (event :: events) st'

/-! ### What has happened to a file -/

/-- The document that was written to the file last. -/
def written (l : Location) : List Event → Option String
  | [] => none
  | .wrote l' document :: events => if l' = l then some document else written l events
  | _ :: events => written l events

/-- The documents that the cache has an entry for at the file, in memory and in the cache file. -/
def remembered (l : Location) : List Event → Option String × Option String
  | [] => (none, none)
  | .wrote l' document :: events =>
    (if l' = l then some document else (remembered l events).1, (remembered l events).2)
  | .saved :: events => ((remembered l events).1, (remembered l events).1)
  | .stopped :: events => ((remembered l events).2, (remembered l events).2)
  | _ :: events => remembered l events

/-- At some event `p` held, with what came before, and no event since then is a `q`. -/
def Since (p : Event → List Event → Prop) (q : Event → Prop) (events : List Event) : Prop :=
  ∃ later event earlier, events = later ++ event :: earlier ∧ p event earlier ∧ ∀ e ∈ later, ¬ q e

/-- The event is a write to the file. -/
def Event.Writes (l : Location) (event : Event) : Prop := ∃ document, event = .wrote l document

/-- The file has been written, and the cache has not been saved since. -/
def Unsaved (l : Location) : List Event → Prop :=
  Since (fun event _ => event.Writes l) (· = .saved)

/-- A process stopped before it had saved the note of a write to the file, and the file has not been
written since. -/
def Lost (l : Location) : List Event → Prop :=
  Since (fun event earlier => event = .stopped ∧ Unsaved l earlier) (Event.Writes l)

section

variable {l l' : Location} {d : String} {event : Event} {events : List Event}
  {p : Event → List Event → Prop} {q : Event → Prop}

theorem since_cons_iff : Since p q (event :: events) ↔ p event events ∨ ¬ q event ∧ Since p q events := by
  constructor
  · rintro ⟨later, event', earlier, heq, hp, hlater⟩
    cases later with
    | nil =>
      obtain ⟨rfl, rfl⟩ := List.cons.inj heq
      exact .inl hp
    | cons first later =>
      obtain ⟨rfl, rfl⟩ := List.cons.inj heq
      obtain ⟨hfirst, hlater⟩ := List.forall_mem_cons.mp hlater
      exact .inr ⟨hfirst, later, event', earlier, rfl, hp, hlater⟩
  · rintro (hp | ⟨hq, later, event', earlier, rfl, hp, hlater⟩)
    · exact ⟨[], event, events, rfl, hp, by simp⟩
    · exact ⟨event :: later, event', earlier, rfl, hp, List.forall_mem_cons.mpr ⟨hq, hlater⟩⟩

theorem writes_wrote_iff : (Event.wrote l' d).Writes l ↔ l' = l := by
  simp [Event.Writes]

theorem unsaved_cons_iff :
    Unsaved l (event :: events) ↔ event.Writes l ∨ event ≠ .saved ∧ Unsaved l events :=
  since_cons_iff

theorem lost_cons_iff : Lost l (event :: events) ↔
    (event = .stopped ∧ Unsaved l events) ∨ ¬ event.Writes l ∧ Lost l events := since_cons_iff

/-- **The cache is right unless a write was lost.** In memory it remembers what was written last; in
the cache file it does once that has been saved. -/
theorem remembered_eq_written (l : Location) (events : List Event) (h : ¬ Lost l events) :
    (remembered l events).1 = written l events ∧
      (¬ Unsaved l events → (remembered l events).2 = written l events) := by
  induction events with
  | nil => exact ⟨rfl, fun _ => rfl⟩
  | cons event events ih =>
    rw [lost_cons_iff, not_or, not_and, not_and] at h
    obtain ⟨hstop, hrest⟩ := h
    cases event with
    | wrote l' d =>
      rw [writes_wrote_iff] at hrest
      by_cases heq : l' = l
      · simp [remembered, written, unsaved_cons_iff, writes_wrote_iff, heq]
      · simpa [remembered, written, unsaved_cons_iff, writes_wrote_iff, heq] using ih (hrest heq)
    | saved =>
      have hevents := ih (hrest (by simp [Event.Writes]))
      exact ⟨hevents.1, fun _ => hevents.1⟩
    | stopped =>
      have hevents := ih (hrest (by simp [Event.Writes]))
      have hfile := hevents.2 (hstop rfl)
      exact ⟨hfile, fun _ => hfile⟩
    | kept l' =>
      simpa [remembered, written, unsaved_cons_iff, Event.Writes] using
        ih (hrest (by simp [Event.Writes]))
    | refused =>
      simpa [remembered, written, unsaved_cons_iff, Event.Writes] using
        ih (hrest (by simp [Event.Writes]))
    | elapsed =>
      simpa [remembered, written, unsaved_cons_iff, Event.Writes] using
        ih (hrest (by simp [Event.Writes]))

/-- What the cache remembers of a file is the document of a write. -/
theorem wrote_mem_of_remembered (l : Location) (events : List Event) :
    (∀ d ∈ (remembered l events).1, .wrote l d ∈ events) ∧
      ∀ d ∈ (remembered l events).2, .wrote l d ∈ events := by
  induction events with
  | nil => simp [remembered]
  | cons event events ih =>
    have htail : (∀ d ∈ (remembered l events).1, .wrote l d ∈ event :: events) ∧
        ∀ d ∈ (remembered l events).2, .wrote l d ∈ event :: events :=
      ⟨fun d hd => List.mem_cons_of_mem _ (ih.1 d hd), fun d hd => List.mem_cons_of_mem _ (ih.2 d hd)⟩
    cases event with
    | wrote l' d =>
      refine ⟨fun d' hd' => ?_, htail.2⟩
      by_cases heq : l' = l
      · rw [remembered, if_pos heq] at hd'
        cases hd'
        rw [heq]
        exact List.mem_cons_self
      · rw [remembered, if_neg heq] at hd'
        exact htail.1 d' hd'
    | saved => exact ⟨htail.1, htail.1⟩
    | stopped => exact ⟨htail.2, htail.2⟩
    | kept l' => exact htail
    | refused => exact htail
    | elapsed => exact htail

/-- What the cache remembers something of has been written. -/
theorem exists_written_of_remembered (l : Location) (events : List Event) :
    ((remembered l events).1.isSome → (written l events).isSome) ∧
      ((remembered l events).2.isSome → (written l events).isSome) := by
  induction events with
  | nil => simp [remembered]
  | cons event events ih =>
    cases event with
    | wrote l' d =>
      by_cases heq : l' = l
      · simp [remembered, written, heq]
      · simpa [remembered, written, heq] using ih
    | saved => exact ⟨ih.1, ih.1⟩
    | stopped => exact ⟨ih.2, ih.2⟩
    | kept l' => exact ih
    | refused => exact ih
    | elapsed => exact ih

end

/-! ### The invariant -/

/-- The entries that the cache knows and those in its file are of the documents that it remembers,
and the files hold what was written last. -/
structure Tracks (plan : Plan) (events : List Event) (es fs : List (String × CacheEntry)) (c : Cache)
    (S : Session) : Prop where
  setting : Setting plan c S
  inFile : c.path ≠ none
  knows : Knows c S.files es
  stored : Stored c.path S.files fs
  clean : c.changed = false → es = fs
  nodup : (es.map Prod.fst).Nodup
  nodupInFile : (fs.map Prod.fst).Nodup
  memory : ∀ o ∈ plan.outputs, (entryAt es (keyOf (spot S.files o))).map CacheEntry.hash =
    (remembered (spot S.files o) events).1.map Digest.ofText
  disk : ∀ o ∈ plan.outputs, (entryAt fs (keyOf (spot S.files o))).map CacheEntry.hash =
    (remembered (spot S.files o) events).2.map Digest.ofText
  planned : ∀ l d, .wrote l d ∈ events → d ∈ plan.documents
  holds : ∀ o ∈ plan.outputs, ∀ d ∈ written (spot S.files o) events,
    S.files.node? (spot S.files o) = some (.file d.toUTF8)

variable {plan : Plan} {events : List Event} {es fs : List (String × CacheEntry)} {c c' : Cache}
  {S S' : Session} {s : CacheState} {output : Path} {document : String}

theorem Tracks.start (hs : Setting plan c S) (hb : Blank c S) (hfile : c.path ≠ none)
    (hclean : c.changed = false) : Tracks plan [] [] [] c S := by
  have hstored : Stored c.path S.files [] := ⟨fun h => absurd rfl h, hb.file hclean⟩
  exact
    { setting := hs
      inFile := hfile
      knows := ⟨hb.state, hb.unread, fun _ => hstored⟩
      stored := hstored
      clean := fun _ => rfl
      nodup := List.nodup_nil
      nodupInFile := List.nodup_nil
      memory := fun o _ => rfl
      disk := fun o _ => rfl
      planned := fun l d h => by cases h
      holds := fun o _ d hd => by cases hd }

/-! ### Steps -/

/-- Reading the state keeps the invariant. -/
theorem Tracks.read (h : Tracks plan events es fs c S) (hread : AtMostRead S c c') :
    Tracks plan events es fs c' S :=
  { h with
    setting := h.setting.mono hread.path_eq (Keeps.refl _)
    inFile := hread.path_eq ▸ h.inFile
    knows := h.knows.read h.setting.directCacheFile hread
    stored := hread.path_eq ▸ h.stored
    clean := by
      rcases hread with rfl | ⟨hnone, s, -, rfl⟩
      · exact h.clean
      · exact fun _ => h.clean (h.knows.unread hnone) }

/-- More directories keep the invariant. -/
theorem Tracks.extend (h : Tracks plan events es fs c S) (hext : Extends S.files S'.files) :
    Tracks plan events es fs c S' := by
  have hcurrent := hext.keeps.current
  refine
    { h with
      setting := h.setting.mono rfl hext.keeps
      knows := h.knows.mono hext.keeps fun _ _ _ => hext.file_iff
      stored := h.stored.mono hext.keeps fun _ _ _ => hext.file_iff
      memory := ?_
      disk := ?_
      holds := ?_ }
  · simpa only [spot_eq hcurrent] using h.memory
  · simpa only [spot_eq hcurrent] using h.disk
  · intro o ho d hd
    rw [spot_eq hcurrent] at hd ⊢
    exact hext.kept _ _ (h.holds o ho d hd)

/-- Something happens that writes, saves and loses nothing. -/
theorem Tracks.happen {event : Event} (h : Tracks plan events es fs c S)
    (hremembered : ∀ l, remembered l (event :: events) = remembered l events)
    (hwritten : ∀ l, written l (event :: events) = written l events)
    (hevent : ∀ l d, event ≠ .wrote l d) : Tracks plan (event :: events) es fs c S := by
  refine { h with memory := ?_, disk := ?_, planned := ?_, holds := ?_ }
  · simpa only [hremembered] using h.memory
  · simpa only [hremembered] using h.disk
  · intro l d hmem
    rcases List.mem_cons.mp hmem with heq | hmem
    · exact absurd heq.symm (hevent l d)
    · exact h.planned l d hmem
  · simpa only [hwritten] using h.holds

/-- A document is written and noted. -/
theorem Tracks.wrote {dirs : FileStore} (h : Tracks plan events es fs c S)
    (ho : output ∈ plan.outputs) (hd : document ∈ plan.documents) (hdirs : Extends S.files dirs)
    (hwrite : dirs.writeBytes output document.toUTF8 = .ok S'.files)
    (hknown : known c { S with files := S'.files } = .ok s) (t : Stamp) :
    Tracks plan (.wrote (spot S.files output) document :: events)
      (Keyed.put Prod.fst (keyOf (spot S.files output), ⟨Digest.ofText document, t⟩) es) fs
      ⟨c.path, some (s.record (keyOf (spot S.files output)) ⟨Digest.ofText document, t⟩), true⟩
      S' := by
  obtain ⟨hchange, -, hnode⟩ := written_spec (h.setting.direct output ho) hdirs hwrite
  have hcurrent := hchange.keeps.current
  refine
    { setting := h.setting.mono rfl hchange.keeps
      inFile := h.inFile
      knows := h.knows.noted h.setting ho hchange hknown _
      stored := h.stored.mono hchange.keeps fun path hp =>
        hchange.file_iff _ (h.setting.not_mem_spot hp ho)
      clean := fun hc => by cases hc
      nodup := Keyed.nodup_map_key_put h.nodup
      nodupInFile := h.nodupInFile
      memory := fun o ho' => ?_
      disk := fun o ho' => by simpa only [spot_eq hcurrent, remembered] using h.disk o ho'
      planned := fun l d hmem => ?_
      holds := fun o ho' d hd' => ?_ }
  · rw [spot_eq hcurrent, entryAt_put, remembered]
    by_cases heq : spot S.files output = spot S.files o
    · rw [if_pos (congrArg keyOf heq), if_pos heq]
      rfl
    · rw [if_neg (mt (h.setting.keyOf_inj ho ho').mp heq), if_neg heq]
      exact h.memory o ho'
  · rcases List.mem_cons.mp hmem with heq | hmem
    · cases heq
      exact hd
    · exact h.planned l d hmem
  · rw [spot_eq hcurrent] at hd' ⊢
    rw [written] at hd'
    by_cases heq : spot S.files output = spot S.files o
    · rw [if_pos heq] at hd'
      cases hd'
      rw [← heq]
      exact hnode
    · rw [if_neg heq] at hd'
      have hnot : spot S.files o ∉ [spot S.files output] := fun hmem =>
        heq (List.mem_singleton.mp hmem).symm
      exact (hchange.file_iff _ hnot _).mpr (h.holds o ho' d hd')

/-- Saving brings what is remembered in memory into the cache file. -/
theorem Tracks.save (h : Tracks plan events es fs c S)
    (hsave : exec Cache.save (c, S) = (.ok (), (c', S'))) :
    Tracks plan (.saved :: events) es es c' S' := by
  obtain ⟨hpath, hstate, hcase⟩ := save_eq_ok h.setting.directCache hsave
  rcases hcase with ⟨rfl, hfiles, hnothing⟩ | ⟨path, s, hp, hs, hclean, hchange, hreach, hnode⟩
  · have hsame : es = fs := by
      rcases hnothing with hunread | hnone | hclean
      · exact h.clean (h.knows.unread hunread)
      · exact absurd hnone h.inFile
      · exact h.clean hclean
    have hthere : Tracks plan events es fs c' S' := h.extend (hfiles ▸ Extends.refl _)
    subst hsame
    refine { hthere with disk := fun o ho => ?_, planned := fun l d hmem => ?_ }
    · exact hthere.memory o ho
    · exact h.planned l d ((List.mem_cons.mp hmem).resolve_left (by simp))
  · have hcurrent := hchange.keeps.current
    obtain ⟨hentries, hreadable⟩ := h.knows.state s hs
    have hsound : s.Sound := ⟨hentries ▸ h.nodup, hreadable⟩
    have hstored : Stored c'.path S'.files es := by
      rw [hpath, hp]
      refine ⟨fun _ => ⟨path, rfl, hreach, _, by rw [spot_eq hcurrent]; exact hnode⟩, ?_⟩
      intro path' hp' b hb now
      cases hp'
      rw [spot_eq hcurrent, hnode] at hb
      cases hb
      exact ⟨s, decode_toText hsound now, hentries⟩
    refine
      { setting := h.setting.mono hpath hchange.keeps
        inFile := hpath ▸ h.inFile
        knows := ⟨fun s' hs' => h.knows.state s' (hstate ▸ hs'), fun hnone => ?_, fun _ => hstored⟩
        stored := hstored
        clean := fun _ => rfl
        nodup := h.nodup
        nodupInFile := h.nodup
        memory := fun o ho => by simpa only [spot_eq hcurrent, remembered] using h.memory o ho
        disk := fun o ho => by simpa only [spot_eq hcurrent, remembered] using h.memory o ho
        planned := fun l d hmem =>
          h.planned l d ((List.mem_cons.mp hmem).resolve_left (by simp))
        holds := fun o ho d hd => ?_ }
    · rw [hstate, hs] at hnone
      cases hnone
    · rw [spot_eq hcurrent] at hd ⊢
      exact (hchange.file_iff _ (h.setting.apart path hp o ho) _).mpr (h.holds o ho d hd)

/-- Stopping loses what is remembered in memory only. -/
theorem Tracks.stop (h : Tracks plan events es fs c S) (hfiles : S'.files = S.files) :
    Tracks plan (.stopped :: events) fs fs (Cache.opened c.path) S' := by
  have hopened : Tracks plan (.stopped :: events) fs fs (Cache.opened c.path) S :=
    { h with
      setting := h.setting.mono rfl (Keeps.refl _)
      knows := ⟨fun s hs => (by cases hs), fun _ => rfl, fun _ => h.stored⟩
      clean := fun _ => rfl
      nodup := h.nodupInFile
      memory := h.disk
      planned := fun l d hmem => h.planned l d ((List.mem_cons.mp hmem).resolve_left (by simp)) }
  exact hopened.extend (hfiles ▸ Extends.refl _)

/-- An emission that returns has written its document, or left the file alone. -/
theorem Tracks.emitted {files : FileStore} {e : Emission} {force : Bool}
    (h : Tracks plan events es fs c S) (ho : output ∈ plan.outputs) (hd : document ∈ plan.documents)
    (he : Emits force document output c S (.ok e) c' files) (hfiles : S'.files = files) :
    (e.status = .upToDate ∧ Tracks plan events es fs c' S') ∨
      (e.status = .written ∧
        ∃ es', Tracks plan (.wrote (spot S.files output) document :: events) es' fs c' S') := by
  cases he with
  | upToDate hstatus _ _ hread =>
    exact .inl ⟨hstatus, (h.read hread).extend (hfiles ▸ Extends.refl _)⟩
  | written hstatus _ hread hmade hwrote hstate =>
    rw [← hread.path_eq]
    subst hfiles
    exact .inr ⟨hstatus, _, (h.read hread).wrote ho hd hmade hwrote hstate S.now⟩

/-- **Each step keeps the invariant**, for other entries. -/
theorem Tracks.step {event : Event} (h : Tracks plan events es fs c S)
    (hstep : Step plan (c, S) event (c', S')) :
    ∃ es' fs', Tracks plan (event :: events) es' fs' c' S' := by
  have hrun {force : Bool} {document : String} {output : Path} {coordinate : Coordinate}
      {r : Except Fault Emission} (ho : output ∈ plan.outputs)
      (hexec : exec (emit force document output coordinate) (c, S) = (r, (c', S'))) :
      Emits force document output c S r c' S'.files := by
    obtain ⟨r', c'', files, log, hrun, hemits⟩ := exec_emit (h.setting.direct output ho)
      h.setting.realCurrent force document c coordinate
    rw [hexec] at hrun
    cases hrun
    exact hemits
  generalize hst : (c, S) = st, hst' : (c', S') = st' at hstep
  cases hstep with
  | wrote ho hd hexec hstatus =>
    cases hst
    cases hst'
    rcases h.emitted ho hd (hrun ho hexec) rfl with ⟨hup, -⟩ | ⟨-, es', hwrote⟩
    · rw [hstatus] at hup
      cases hup
    · exact ⟨es', fs, hwrote⟩
  | kept ho hd hexec hstatus =>
    cases hst
    cases hst'
    rcases h.emitted ho hd (hrun ho hexec) rfl with ⟨-, hkept⟩ | ⟨hwritten, -⟩
    · exact ⟨es, fs, hkept.happen (fun _ => rfl) (fun _ => rfl) (by simp)⟩
    · rw [hstatus] at hwritten
      cases hwritten
  | refused ho hd hexec hf =>
    subst hst hst'
    cases hrun ho hexec with
    | refused _ hread hext =>
      exact ⟨es, fs, ((h.read hread).extend hext).happen (fun _ => rfl) (fun _ => rfl) (by simp)⟩
    | unnoted _ _ hunreadable => exact absurd hf (not_blocked_of_stored_eq_error hunreadable)
  | saved hexec =>
    subst hst hst'
    exact ⟨es, es, h.save hexec⟩
  | stopped hfiles =>
    cases hst
    cases hst'
    exact ⟨fs, fs, h.stop hfiles⟩
  | elapsed hfiles =>
    cases hst
    cases hst'
    have hext : Extends S.files S'.files := hfiles ▸ Extends.refl _
    have hsame := h.extend hext
    exact ⟨es, fs, hsame.happen (fun _ => rfl) (fun _ => rfl) (by simp)⟩

/-- **Every run keeps the invariant.** -/
theorem Run.tracks {start st : Cache × Session} (hs : Setting plan start.1 start.2)
    (hb : Blank start.1 start.2) (hfile : start.1.path ≠ none) (hclean : start.1.changed = false)
    (hrun : Run plan start events st) : ∃ es fs, Tracks plan events es fs st.1 st.2 := by
  induction hrun with
  | start => exact ⟨[], [], Tracks.start hs hb hfile hclean⟩
  | step _ hstep ih =>
    obtain ⟨es, fs, htracks⟩ := ih
    exact htracks.step hstep

/-! ### What an emission decides by -/

/-- The cache takes a file for current exactly if it remembers the document there, whether or not
the file holds it. -/
theorem Tracks.knowsCurrent_iff (h : Tracks plan events es fs c S) (ho : output ∈ plan.outputs)
    (hd : document ∈ plan.documents) :
    KnowsCurrent c S output (Digest.ofText document) ↔
      (remembered (spot S.files output) events).1 = some document ∧
        S.files.isFile? output = .ok true := by
  have hmemory := h.memory output ho
  constructor
  · rintro ⟨s, e, hs, he, hhash, hfile⟩
    have hentry : entryAt es (keyOf (spot S.files output)) = some e := by
      rw [← (h.knows.entries_of_known h.setting.directCacheFile hs).1]
      exact he
    rw [hentry, Option.map_some, hhash] at hmemory
    obtain ⟨d, hremembered, hdigest⟩ := Option.map_eq_some_iff.mp hmemory.symm
    have hplanned := h.planned _ _ ((wrote_mem_of_remembered _ _).1 d hremembered)
    rw [h.setting.distinct d hplanned document hd hdigest] at hremembered
    exact ⟨hremembered, hfile⟩
  · rintro ⟨hremembered, hfile⟩
    rw [hremembered, Option.map_some] at hmemory
    obtain ⟨e, hentry, hhash⟩ := Option.map_eq_some_iff.mp hmemory
    have hne : es ≠ [] := by
      rintro rfl
      cases hentry
    obtain ⟨s, hs⟩ := h.knows.exists_known h.setting.directCacheFile hne
    refine ⟨s, e, hs, ?_, hhash, hfile⟩
    rw [entry?_eq_entryAt, (h.knows.entries_of_known h.setting.directCacheFile hs).1]
    exact hentry

/-- **What an emission decides by, and when it is right.** In a run in which processes stop at any
time, an emission leaves the file alone exactly if it is not forced, the file is there, and the cache
remembers the document there. The file then holds what was written there last, and this is the
document if no write to the file was lost. An emission that writes leaves the document in the
file. -/
theorem emit_exact_across_stops {start : Cache × Session}
    (hsetting : Setting plan start.1 start.2) (hblank : Blank start.1 start.2)
    (hfile : start.1.path ≠ none) (hclean : start.1.changed = false)
    (hrun : Run plan start events (c, S)) (ho : output ∈ plan.outputs)
    (hd : document ∈ plan.documents) {force : Bool} {coordinate : Coordinate} {e : Emission}
    (hemit : exec (emit force document output coordinate) (c, S) = (.ok e, (c', S'))) :
    (e.status = .upToDate ↔ force = false ∧
      (remembered (spot S.files output) events).1 = some document ∧
      S.files.isFile? output = .ok true) ∧
    (e.status = .upToDate → ∃ d ∈ written (spot S.files output) events,
      S'.files.readBytes output = .ok d.toUTF8) ∧
    (e.status = .upToDate → ¬ Lost (spot S.files output) events →
      S'.files.readBytes output = .ok document.toUTF8) ∧
    (e.status = .written → S'.files.readBytes output = .ok document.toUTF8) := by
  obtain ⟨es, fs, htracks⟩ := hrun.tracks hsetting hblank hfile hclean
  have hdirect := htracks.setting.direct output ho
  have hknows := htracks.knowsCurrent_iff ho hd
  obtain ⟨r, c'', files, log, hexec, hemits⟩ :=
    exec_emit hdirect htracks.setting.realCurrent force document c coordinate
  rw [hemit] at hexec
  cases hexec
  rw [← hknows]
  cases hemits with
  | upToDate hstatus hforce hcurrent _ =>
    obtain ⟨hremembered, hthere⟩ := hknows.mp hcurrent
    obtain ⟨hreach, -⟩ := (isFile?_eq_true_iff hdirect).mp hthere
    have hreads {d : String} (hd : d ∈ written (spot S.files output) events) :
        S.files.readBytes output = .ok d.toUTF8 :=
      (readBytes_eq_ok_iff hdirect).mpr ⟨hreach, htracks.holds output ho d hd⟩
    refine ⟨iff_of_true hstatus ⟨hforce, hcurrent⟩, fun _ => ?_, fun _ hkept => ?_, fun hw => ?_⟩
    · obtain ⟨d, hd⟩ := Option.isSome_iff_exists.mp
        ((exists_written_of_remembered _ _).1 (by rw [hremembered]; rfl))
      exact ⟨d, hd, hreads hd⟩
    · refine hreads ?_
      rw [← (remembered_eq_written _ _ hkept).1]
      exact hremembered
    · rw [hstatus] at hw
      cases hw
  | written hstatus hdue _ hmade hwrote _ =>
    obtain ⟨hchange, hreach, hnode⟩ := written_spec hdirect hmade hwrote
    have hnot : e.status ≠ .upToDate := by rw [hstatus]; decide
    refine ⟨iff_of_false hnot hdue, fun hup => absurd hup hnot, fun hup => absurd hup hnot, fun _ => ?_⟩
    refine (readBytes_eq_ok_iff (hdirect.mono hchange.keeps)).mpr ⟨hreach, ?_⟩
    rw [spot_eq hchange.keeps.current]
    exact hnode

/-- A process writes a document and stops before it has saved; the next one writes it again. -/
theorem emit_after_stop :
    let emission := emit false "{}" (Path.ofString "/module/out.json") ⟨"g", "a", "1"⟩
    let start : Cache × Session := (Cache.opened (some (Path.ofString "/cache.json")),
      ⟨FileStore.empty, [], Path.ofString "/", Stamp.epoch⟩)
    let stopped := (exec emission start).2
    let restart := (Cache.opened stopped.1.path, stopped.2)
    ∃ e, (exec emission restart).1 = .ok e ∧ e.status = .written ∧
      (exec emission restart).2.2.files.readBytes (Path.ofString "/module/out.json") =
        .ok "{}".toUTF8 := by
  intro emission start stopped restart
  let output := Path.ofString "/module/out.json"
  let plan : Plan := ⟨{output}, {"{}"}⟩
  have hapart : ∀ path ∈ start.1.path, spot FileStore.empty output ∉
      [spot FileStore.empty path, spot FileStore.empty (temporary path)] := by
    rintro path ⟨⟩
    have hspot : spot FileStore.empty output = ["module", "out.json"] := by cbv
    have hcache : spot FileStore.empty (Path.ofString "/cache.json") = ["cache.json"] := by cbv
    have htemp : spot FileStore.empty (temporary (Path.ofString "/cache.json")) =
        ["cache.tmp"] := by cbv
    rw [hspot, hcache, htemp]
    decide
  have hsetting : Setting plan start.1 start.2 :=
    setting_of_empty rfl (Path.properNames_ofString "/module/out.json") hapart
  have hblank : Blank start.1 start.2 := blank_of_empty _ rfl
  have hunknown : known start.1 start.2 = .ok .empty := by cbv
  obtain ⟨s, log, hfirst⟩ := exec_emit_first (c := start.1) (S := start.2) rfl hunknown "{}"
    ⟨"g", "a", "1"⟩
  let left : Session := ⟨firstWritten "{}".toUTF8, log, start.2.home, start.2.now⟩
  have hrestart : restart = (start.1, left) := by
    simp only [restart, stopped, emission, hfirst]
    rfl
  -- the note of the write was lost, so nothing is known of the file
  have hforgotten : known start.1 left = .ok .empty := by cbv
  have hreal : left.files.realPath output = .ok ⟨.root, ["module", "out.json"]⟩ := by cbv
  have hmade : left.files.makeDirs output.parent = (.ok (), left.files) := by cbv
  have hwrote : left.files.writeBytes output "{}".toUTF8 = .ok left.files := by cbv
  obtain ⟨log', hsecond⟩ := exec_emit_new hforgotten hreal rfl hmade hwrote hreal ⟨"g", "a", "1"⟩
  have hwritten : (exec emission start).1 = .ok (outcome .written "{}" output ⟨"g", "a", "1"⟩) :=
    congrArg Prod.fst hfirst
  have hrun : Run plan start [.stopped, .wrote (spot start.2.files output) "{}"] restart :=
    .step (.step .start (.wrote rfl rfl (Prod.ext hwritten rfl) rfl)) (.stopped rfl)
  have hpath : start.1.path ≠ none := by simp [start, Cache.opened]
  have he : (exec emission restart).1 = .ok (outcome .written "{}" output ⟨"g", "a", "1"⟩) := by
    rw [hrestart]
    exact congrArg Prod.fst hsecond
  have hagain := emit_exact_across_stops hsetting hblank hpath rfl hrun rfl rfl (Prod.ext he rfl)
  exact ⟨_, he, rfl, hagain.2.2.2 rfl⟩

end Interrupted

end Emission

end ModulePins
