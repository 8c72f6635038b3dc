import ModulePins.Proofs.Emission.Run

/-!
# What a run preserves

The invariant ties three things together: the entries that the cache knows, the bytes that the
output files hold, and what has happened. `Tracks plan events es c S` says that `es` are the entries
known; that an entry's digest is the one of a document, and that the file, where it is there as a
file, holds that document; and that a file has an entry exactly if it was emitted and not
invalidated since.

That the cache knows the entries is `Knows`, whether its state has been read or not. The entries may
be in the cache, in its file, or in both. They are in the file when nothing is unsaved, and they are
lost from it by no step but saving, because no output file is the cache file: that is `Stored`, and
it is why opening the cache anew keeps the invariant.

## Main results

* `Emission.Tracks.start` — a blank cache tracks what has happened so far, which is nothing
* `Emission.Tracks.step` — each step keeps the invariant, for other entries
* `Emission.Run.tracks` — so every run does
-/

namespace ModulePins

namespace Emission

open FileStore Cache ModulePins.Task

variable {plan : Plan} {events : List Event} {es : List (String × CacheEntry)} {c c' : Cache}
  {S S' : Session} {s : CacheState} {f : Fault} {output o : Path}

/-! ### The setting -/

theorem Setting.mono (h : Setting plan c S) (hpath : c'.path = c.path)
    (hk : Keeps S.files S'.files) : Setting plan c' S' := by
  refine ⟨fun o ho => (h.direct o ho).mono hk, h.proper, ?_, ?_, fun path hp => ?_, ?_, h.distinct⟩
  · exact hk.current ▸ h.properCurrent
  · exact hk.current ▸ h.realCurrent
  · rw [hpath] at hp
    exact ⟨(h.directCache path hp).1.mono hk, (h.directCache path hp).2.mono hk⟩
  · intro path hp o ho
    rw [hpath] at hp
    rw [spot_eq hk.current, spot_eq hk.current, spot_eq hk.current]
    exact h.apart path hp o ho

theorem properNames_walkFrom {here : Location} {rest : List String} (hhere : ProperNames here)
    (hrest : ProperNames rest) : ProperNames (walkFrom here rest) := by
  induction rest generalizing here with
  | nil => exact hhere
  | cons name rest ih =>
    rw [walkFrom]
    refine ih ?_ fun n hn => hrest n (List.mem_cons_of_mem _ hn)
    split
    · exact fun n hn => hhere n (List.dropLast_subset _ hn)
    · intro n hn
      rcases List.mem_append.mp hn with hn | hn
      · exact hhere n hn
      · exact hrest n (List.mem_singleton.mp hn ▸ List.mem_cons_self)

theorem Setting.properNames_spot (h : Setting plan c S) (ho : output ∈ plan.outputs) :
    ProperNames (spot S.files output) := by
  refine properNames_walkFrom ?_ (h.proper output ho)
  rw [FileStore.start]
  split
  · exact fun n hn => absurd hn List.not_mem_nil
  · exact h.properCurrent

/-- Different files have different keys. -/
theorem Setting.keyOf_inj (h : Setting plan c S) (ho : output ∈ plan.outputs)
    (ho' : o ∈ plan.outputs) :
    keyOf (spot S.files output) = keyOf (spot S.files o) ↔ spot S.files output = spot S.files o :=
  ⟨fun hkey => Path.toString_root_inj (h.properNames_spot ho) (h.properNames_spot ho') hkey,
    fun hspot => congrArg keyOf hspot⟩

theorem Setting.directCacheFile (h : Setting plan c S) : ∀ path ∈ c.path, Direct S.files path :=
  fun path hp => (h.directCache path hp).1

theorem Setting.not_mem_spot (h : Setting plan c S) {path : Path} (hp : path ∈ c.path)
    (ho : output ∈ plan.outputs) : spot S.files path ∉ [spot S.files output] :=
  fun hmem => h.apart path hp output ho (List.mem_singleton.mp hmem ▸ List.mem_cons_self)

/-! ### The entries in the cache file -/

/-- The entries are in the cache file: it is there if there are any, and it says nothing else. -/
structure Stored (path? : Option Path) (files : FileStore) (es : List (String × CacheEntry)) :
    Prop where
  there : es ≠ [] → ∃ path ∈ path?, Reaches files path ∧
    ∃ b, files.node? (spot files path) = some (.file b)
  holds : ∀ path ∈ path?, ∀ b, files.node? (spot files path) = some (.file b) → Holds b es

theorem Stored.mono {path? : Option Path} {files files' : FileStore} (h : Stored path? files es)
    (hk : Keeps files files')
    (hfile : ∀ path ∈ path?, ∀ b, files'.node? (spot files path) = some (.file b) ↔
      files.node? (spot files path) = some (.file b)) : Stored path? files' es := by
  refine ⟨fun hne => ?_, fun path hp b hb => ?_⟩
  · obtain ⟨path, hp, hr, b, hb⟩ := h.there hne
    refine ⟨path, hp, hr.mono hk, b, ?_⟩
    rw [spot_eq hk.current]
    exact (hfile path hp b).mpr hb
  · rw [spot_eq hk.current] at hb
    exact h.holds path hp b ((hfile path hp b).mp hb)

/-- Reading the cache file gives these entries, if it succeeds. -/
theorem Stored.entries_eq {path? : Option Path} {files : FileStore} {now : Stamp}
    (h : Stored path? files es) (hdirect : ∀ path ∈ path?, Direct files path)
    (hs : stored now files path? = .ok s) :
    s.entries = es ∧ Number.isReadable s.version = true := by
  cases path? with
  | none =>
    cases hs
    have hnil : es = [] := by
      by_contra hne
      obtain ⟨path, hp, -⟩ := h.there hne
      cases hp
    exact ⟨hnil.symm, CacheState.readable_one⟩
  | some path =>
    have hd := hdirect path rfl
    by_cases hthere : Reaches files path ∧ ∃ b, files.node? (spot files path) = some (.file b)
    · obtain ⟨hr, b, hb⟩ := hthere
      rw [stored_eq_decode hd hr hb] at hs
      obtain ⟨s', hs', hentries⟩ := h.holds path rfl b hb now
      rw [hs] at hs'
      cases hs'
      exact ⟨hentries, readable_of_decode hs⟩
    · have hnil : es = [] := by
        by_contra hne
        obtain ⟨path', hp, h'⟩ := h.there hne
        cases hp
        exact hthere h'
      rw [eq_empty_of_stored hd hthere hs]
      exact ⟨hnil.symm, CacheState.readable_one⟩

/-- Reading the cache file succeeds if there are any entries. -/
theorem Stored.exists_eq_ok {path? : Option Path} {files : FileStore} (h : Stored path? files es)
    (hdirect : ∀ path ∈ path?, Direct files path) (hne : es ≠ []) (now : Stamp) :
    ∃ s, stored now files path? = .ok s := by
  obtain ⟨path, hp, hr, b, hb⟩ := h.there hne
  obtain ⟨s, hs, -⟩ := h.holds path hp b hb now
  have hread := stored_eq_decode (hdirect path hp) hr hb now
  cases hp
  exact ⟨s, hread.trans hs⟩

/-! ### The entries that the cache knows -/

/-- The cache knows exactly these entries, whether its state has been read or not. -/
structure Knows (c : Cache) (files : FileStore) (es : List (String × CacheEntry)) : Prop where
  state : ∀ s ∈ c.state, s.entries = es ∧ Number.isReadable s.version = true
  unread : c.state = none → c.changed = false
  saved : c.changed = false → Stored c.path files es

/-- What has been changed is known from the state alone. -/
theorem Knows.changed (hs : s.entries = es ∧ Number.isReadable s.version = true)
    (path? : Option Path) (files : FileStore) : Knows ⟨path?, some s, true⟩ files es where
  state s' hs' := by
    cases hs'
    exact hs
  unread hstate := by cases hstate
  saved hc := by cases hc

theorem Knows.mono {files files' : FileStore} (h : Knows c files es) (hk : Keeps files files')
    (hfile : ∀ path ∈ c.path, ∀ b, files'.node? (spot files path) = some (.file b) ↔
      files.node? (spot files path) = some (.file b)) : Knows c files' es :=
  ⟨h.state, h.unread, fun hc => (h.saved hc).mono hk hfile⟩

/-- The state at hand holds the entries. -/
theorem Knows.entries_of_known (h : Knows c S.files es)
    (hdirect : ∀ path ∈ c.path, Direct S.files path) (hs : known c S = .ok s) :
    s.entries = es ∧ Number.isReadable s.version = true := by
  cases hstate : c.state with
  | some s' =>
    rw [known, hstate] at hs
    cases hs
    exact h.state s hstate
  | none =>
    rw [known, hstate] at hs
    exact (h.saved (h.unread hstate)).entries_eq hdirect hs

/-- There is a state at hand if there are any entries. -/
theorem Knows.exists_known (h : Knows c S.files es)
    (hdirect : ∀ path ∈ c.path, Direct S.files path) (hne : es ≠ []) : ∃ s, known c S = .ok s := by
  cases hstate : c.state with
  | some s => exact ⟨s, by rw [known, hstate]⟩
  | none =>
    obtain ⟨s, hs⟩ := (h.saved (h.unread hstate)).exists_eq_ok hdirect hne S.now
    exact ⟨s, by rw [known, hstate, hs]⟩

/-- Reading the state does not change what is known. -/
theorem Knows.read (h : Knows c S.files es) (hdirect : ∀ path ∈ c.path, Direct S.files path)
    (hread : AtMostRead S c c') : Knows c' S.files es := by
  rcases hread with rfl | ⟨hnone, s, hs, rfl⟩
  · exact h
  · have hstored := h.saved (h.unread hnone)
    refine ⟨fun s' hs' => ?_, fun hstate => ?_, fun _ => hstored⟩
    · cases hs'
      exact hstored.entries_eq hdirect hs
    · cases hstate

/-- Noting a document that was written puts its entry among those that are known. -/
theorem Knows.noted (h : Knows c S.files es) (hsetting : Setting plan c S)
    (ho : output ∈ plan.outputs) (hchange : ChangesOnly [spot S.files output] S.files S'.files)
    (hknown : known c { S with files := S'.files } = .ok s) (e : CacheEntry) :
    Knows ⟨c.path, some (s.record (keyOf (spot S.files output)) e), true⟩ S'.files
      (Keyed.put Prod.fst (keyOf (spot S.files output), e) es) := by
  -- the write has left the cache file alone, so what was known is known still
  have hknows : Knows c S'.files es := h.mono hchange.keeps fun path hp =>
    hchange.file_iff _ (hsetting.not_mem_spot hp ho)
  obtain ⟨hentries, hreadable⟩ := hknows.entries_of_known (S := { S with files := S'.files })
    (fun path hp => (hsetting.directCacheFile path hp).mono hchange.keeps) hknown
  have hrecord : (s.record (keyOf (spot S.files output)) e).entries =
      Keyed.put Prod.fst (keyOf (spot S.files output), e) es := by
    rw [CacheState.record, hentries]
  exact Knows.changed ⟨hrecord, hreadable⟩ _ _

/-- The entry with a key. -/
def entryAt (es : List (String × CacheEntry)) (k : String) : Option CacheEntry :=
  (Keyed.find? Prod.fst k es).map Prod.snd

theorem entry?_eq_entryAt (s : CacheState) (k : String) : s.entry? k = entryAt s.entries k := rfl

theorem entryAt_put (key : String) (e : CacheEntry) (es : List (String × CacheEntry)) (k : String) :
    entryAt (Keyed.put Prod.fst (key, e) es) k = if key = k then some e else entryAt es k := by
  rw [entryAt, Keyed.find?_put]
  split <;> rfl

theorem entryAt_erase (key k : String) (es : List (String × CacheEntry)) :
    entryAt (Keyed.erase Prod.fst key es) k = if key = k then none else entryAt es k := by
  rw [entryAt, Keyed.find?_erase]
  split <;> rfl

/-! ### The invariant -/

/-- The cache knows these entries, they agree with the files, and files have entries according to
what has happened. -/
structure Tracks (plan : Plan) (events : List Event) (es : List (String × CacheEntry)) (c : Cache)
    (S : Session) : Prop where
  setting : Setting plan c S
  knows : Knows c S.files es
  nodup : (es.map Prod.fst).Nodup
  /-- A file with an entry holds the document that the entry is about, if it holds anything. -/
  agrees : ∀ o ∈ plan.outputs, ∀ e, entryAt es (keyOf (spot S.files o)) = some e →
    ∃ d ∈ plan.documents, e.hash = Digest.ofText d ∧
      ∀ b, S.files.node? (spot S.files o) = some (.file b) → b = d.toUTF8
  history : ∀ o ∈ plan.outputs,
    (entryAt es (keyOf (spot S.files o))).isSome ↔ EmittedSince (spot S.files o) events

/-- A blank cache tracks what has happened so far, which is nothing. -/
theorem Tracks.start (hs : Setting plan c S) (hb : Blank c S) : Tracks plan [] [] c S where
  setting := hs
  knows := ⟨hb.state, hb.unread, fun hc => ⟨fun h => absurd rfl h, hb.file hc⟩⟩
  nodup := List.nodup_nil
  agrees o _ e he := by cases he
  history o _ := by simp [entryAt, Keyed.find?, not_emittedSince_nil]

/-- The state at hand holds the entries. -/
theorem Tracks.entries_of_known (h : Tracks plan events es c S) (hs : known c S = .ok s) :
    s.entries = es ∧ Number.isReadable s.version = true :=
  h.knows.entries_of_known h.setting.directCacheFile hs

/-- Noting a file is what an emission asks for. -/
theorem Tracks.isSome_put_iff (h : Tracks plan events es c S) (ho : output ∈ plan.outputs)
    (ho' : o ∈ plan.outputs) (e : CacheEntry) :
    (entryAt (Keyed.put Prod.fst (keyOf (spot S.files output), e) es)
        (keyOf (spot S.files o))).isSome ↔
      EmittedSince (spot S.files o) (.emitted (spot S.files output) :: events) := by
  rw [entryAt_put]
  split
  · rename_i hkey
    rw [(h.setting.keyOf_inj ho ho').mp hkey]
    exact iff_of_true rfl emittedSince_emitted
  · rename_i hkey
    have hne : spot S.files output ≠ spot S.files o := fun heq => hkey (congrArg keyOf heq)
    rw [h.history o ho', emittedSince_cons_iff (by simpa using hne) (by simp)]

/-- Forgetting a file is what an invalidation asks for. -/
theorem Tracks.isSome_erase_iff (h : Tracks plan events es c S) (ho : output ∈ plan.outputs)
    (ho' : o ∈ plan.outputs) :
    (entryAt (Keyed.erase Prod.fst (keyOf (spot S.files output)) es)
        (keyOf (spot S.files o))).isSome ↔
      EmittedSince (spot S.files o) (.invalidated (spot S.files output) :: events) := by
  rw [entryAt_erase]
  split
  · rename_i hkey
    rw [(h.setting.keyOf_inj ho ho').mp hkey]
    exact iff_of_false (by simp) not_emittedSince_invalidated
  · rename_i hkey
    have hne : spot S.files output ≠ spot S.files o := fun heq => hkey (congrArg keyOf heq)
    rw [h.history o ho', emittedSince_cons_iff (by simp) (by simpa using hne)]

/-! ### Steps that keep the entries -/

/-- Reading the state keeps the invariant. -/
theorem Tracks.read (h : Tracks plan events es c S) (hread : AtMostRead S c c') :
    Tracks plan events es c' S where
  setting := h.setting.mono hread.path_eq (Keeps.refl _)
  knows := h.knows.read h.setting.directCacheFile hread
  nodup := h.nodup
  agrees := h.agrees
  history := h.history

/-- Changes to the files keep the invariant, if output files change by going away only and the cache
file does not change. -/
theorem Tracks.frame (h : Tracks plan events es c S) (hk : Keeps S.files S'.files)
    (houtputs : ∀ o ∈ plan.outputs, ∀ b, S'.files.node? (spot S.files o) = some (.file b) →
      S.files.node? (spot S.files o) = some (.file b))
    (hcache : ∀ path ∈ c.path, ∀ b, S'.files.node? (spot S.files path) = some (.file b) ↔
      S.files.node? (spot S.files path) = some (.file b)) :
    Tracks plan events es c S' := by
  refine ⟨h.setting.mono rfl hk, h.knows.mono hk hcache, h.nodup, fun o ho e he => ?_,
    fun o ho => ?_⟩
  · rw [spot_eq hk.current] at he ⊢
    obtain ⟨d, hd, hhash, hbytes⟩ := h.agrees o ho e he
    exact ⟨d, hd, hhash, fun b hb => hbytes b (houtputs o ho b hb)⟩
  · rw [spot_eq hk.current]
    exact h.history o ho

/-- More directories keep the invariant. -/
theorem Tracks.extend (h : Tracks plan events es c S) (hext : Extends S.files S'.files) :
    Tracks plan events es c S' :=
  h.frame hext.keeps (fun _ _ _ => hext.file_iff.mp) fun _ _ _ => hext.file_iff

/-- Something happens that concerns no entry. -/
theorem Tracks.happen (h : Tracks plan events es c S) {event : Event}
    (hevent : ∀ o ∈ plan.outputs, EmittedSince (spot S.files o) (event :: events) ↔
      EmittedSince (spot S.files o) events) : Tracks plan (event :: events) es c S :=
  { h with history := fun o ho => (h.history o ho).trans (hevent o ho).symm }

/-! ### Steps that change the entries -/

/-- A document is written and noted. -/
theorem Tracks.written {dirs : FileStore} {document : String} (h : Tracks plan events es c S)
    (ho : output ∈ plan.outputs) (hd : document ∈ plan.documents) (hdirs : Extends S.files dirs)
    (hwrite : dirs.writeBytes output document.toUTF8 = .ok S'.files)
    (hknown : known c { S with files := S'.files } = .ok s) (t : Stamp) :
    Tracks plan (.emitted (spot S.files output) :: events)
      (Keyed.put Prod.fst (keyOf (spot S.files output), ⟨Digest.ofText document, t⟩) es)
      ⟨c.path, some (s.record (keyOf (spot S.files output)) ⟨Digest.ofText document, t⟩), true⟩
      S' := by
  obtain ⟨hchange, -, hnode⟩ := written_spec (h.setting.direct output ho) hdirs hwrite
  have hcurrent := hchange.keeps.current
  refine ⟨h.setting.mono rfl hchange.keeps, h.knows.noted h.setting ho hchange hknown _,
    Keyed.nodup_map_key_put h.nodup, fun o ho' e he => ?_, fun o ho' => ?_⟩
  · rw [spot_eq hcurrent] at he ⊢
    rw [entryAt_put] at he
    split at he
    · rename_i hkey
      cases he
      rw [← (h.setting.keyOf_inj ho ho').mp hkey, hnode]
      exact ⟨document, hd, rfl, fun b hb => by cases hb; rfl⟩
    · rename_i hkey
      have hne : spot S.files o ∉ [spot S.files output] := fun hmem =>
        hkey (congrArg keyOf (List.mem_singleton.mp hmem).symm)
      obtain ⟨d, hd', hhash, hbytes⟩ := h.agrees o ho' e he
      exact ⟨d, hd', hhash, fun b hb => hbytes b ((hchange.file_iff _ hne b).mp hb)⟩
  · rw [spot_eq hcurrent]
    exact h.isSome_put_iff ho ho' _

/-- A file is forgotten, whether it had an entry or not. -/
theorem Tracks.invalidated (h : Tracks plan events es c S) (ho : output ∈ plan.outputs)
    (hs : s.entries = es ∧ Number.isReadable s.version = true)
    (hc' : if (CacheState.entry? s (keyOf (spot S.files output))).isSome then
        c' = ⟨c.path, some (s.forget (keyOf (spot S.files output))), true⟩
      else AtMostRead S c c') :
    ∃ es', Tracks plan (.invalidated (spot S.files output) :: events) es' c' S := by
  rw [entry?_eq_entryAt, hs.1] at hc'
  split at hc'
  · refine ⟨Keyed.erase Prod.fst (keyOf (spot S.files output)) es, ?_⟩
    subst hc'
    have hforget : (s.forget (keyOf (spot S.files output))).entries =
        Keyed.erase Prod.fst (keyOf (spot S.files output)) es := by
      rw [CacheState.forget, hs.1]
    refine ⟨h.setting.mono rfl (Keeps.refl _), Knows.changed ⟨hforget, hs.2⟩ _ _,
      Keyed.nodup_map_key_erase h.nodup, fun o ho' e he => ?_,
      fun o ho' => h.isSome_erase_iff ho ho'⟩
    rw [entryAt_erase] at he
    split at he
    · cases he
    · exact h.agrees o ho' e he
  · rename_i hnone
    refine ⟨es, (h.read hc').happen fun o ho' => ?_⟩
    by_cases heq : spot S.files output = spot S.files o
    · rw [← heq, ← h.history output ho]
      exact iff_of_false not_emittedSince_invalidated hnone
    · exact emittedSince_cons_iff (by simp) (by simpa using heq)

/-- An emission that returns. -/
theorem Tracks.emitted {files : FileStore} {e : Emission} {force : Bool} {document : String}
    (h : Tracks plan events es c S) (ho : output ∈ plan.outputs) (hd : document ∈ plan.documents)
    (he : Emits force document output c S (.ok e) c' files) (hfiles : S'.files = files) :
    ∃ es', Tracks plan (.emitted (spot S.files output) :: events) es' c' S' := by
  cases he with
  | upToDate _ _ hknows hread =>
    obtain ⟨s, e, hs, he, -⟩ := hknows
    have hentries := (h.entries_of_known hs).1
    have hsome : (entryAt es (keyOf (spot S.files output))).isSome := by
      rw [entry?_eq_entryAt, hentries] at he
      rw [he]
      rfl
    have hsame : Tracks plan events es c' S' := (h.read hread).extend (hfiles ▸ Extends.refl _)
    refine ⟨es, hsame.happen fun o ho' => ?_⟩
    rw [hfiles]
    by_cases heq : spot S.files output = spot S.files o
    · rw [← heq]
      exact iff_of_true emittedSince_emitted ((h.history output ho).mp hsome)
    · exact emittedSince_cons_iff (by simpa using heq) (by simp)
  | written _ _ hread hmade hwrote hstate =>
    rw [← hread.path_eq]
    subst hfiles
    exact ⟨_, (h.read hread).written ho hd hmade hwrote hstate S.now⟩

/-! ### The other steps -/

/-- Saving keeps the entries, and if it succeeds they are in the file. -/
theorem Tracks.save {files : FileStore} (h : Tracks plan events es c S)
    (hpath : c'.path = c.path) (hstate : c'.state = c.state)
    (hcase : (c' = c ∧ files = S.files) ∨
      ∃ path s, c.path = some path ∧ c.state = some s ∧
        ChangesOnly [spot S.files path, spot S.files (temporary path)] S.files files ∧
        (c' = c ∧ c.changed = true ∨ Reaches files path ∧
          files.node? (spot S.files path) = some (.file (s.toJson.toText .ascii).toUTF8)))
    (hfiles : S'.files = files) : Tracks plan events es c' S' := by
  rcases hcase with ⟨rfl, rfl⟩ | ⟨path, s, hp, hs, hchange, hend⟩
  · exact h.extend (hfiles ▸ Extends.refl _)
  · subst hfiles
    have hcurrent := hchange.keeps.current
    have hsound : s.Sound := by
      obtain ⟨hentries, hreadable⟩ := h.knows.state s hs
      exact ⟨hentries ▸ h.nodup, hreadable⟩
    refine ⟨h.setting.mono hpath hchange.keeps, ⟨fun s' hs' => ?_, fun hnone => ?_, fun hc => ?_⟩,
      h.nodup, fun o ho e he => ?_, fun o ho => ?_⟩
    · rw [hstate] at hs'
      exact h.knows.state s' hs'
    · rw [hstate, hs] at hnone
      cases hnone
    · rcases hend with ⟨rfl, hchanged⟩ | ⟨hreach, hnode⟩
      · rw [hc] at hchanged
        cases hchanged
      · rw [hpath, hp]
        refine ⟨fun _ => ⟨path, rfl, hreach, _, by rw [spot_eq hcurrent]; exact hnode⟩, ?_⟩
        intro path' hp' b hb now
        cases hp'
        rw [spot_eq hcurrent, hnode] at hb
        cases hb
        exact ⟨s, decode_toText hsound now, (h.knows.state s hs).1⟩
    · rw [spot_eq hcurrent] at he ⊢
      obtain ⟨d, hd, hhash, hbytes⟩ := h.agrees o ho e he
      have hapart := h.setting.apart path hp o ho
      exact ⟨d, hd, hhash, fun b hb => hbytes b ((hchange.file_iff _ hapart b).mp hb)⟩
    · rw [spot_eq hcurrent]
      exact h.history o ho

/-- Opening the cache anew keeps the entries, since nothing is unsaved. -/
theorem Tracks.reopen (h : Tracks plan events es c S) (hc : c.changed = false) :
    Tracks plan events es (Cache.opened c.path) S where
  setting := h.setting.mono rfl (Keeps.refl _)
  knows := ⟨fun s hs => (by cases hs), fun _ => rfl, fun _ => h.knows.saved hc⟩
  nodup := h.nodup
  agrees := h.agrees
  history := h.history

/-- An output file is deleted. -/
theorem Tracks.delete {files : FileStore} (h : Tracks plan events es c S)
    (ho : output ∈ plan.outputs) (hfile : S.files.isFile? output = .ok true)
    (hremove : S.files.remove output = .ok files) (hfiles : S'.files = files) :
    Tracks plan events es c S' := by
  have hdirect := h.setting.direct output ho
  obtain ⟨-, b, hb⟩ := (isFile?_eq_true_iff hdirect).mp hfile
  have hdrop : ChangesOnly [spot S.files output] S.files S'.files := by
    rw [hfiles, remove_eq_ok hdirect hb hremove]
    exact ChangesOnly.drop (by rw [hb]; exact fun hdir => by cases hdir)
  refine h.frame hdrop.keeps (fun o _ b' hb' => ?_) fun path hp =>
    hdrop.file_iff _ (h.setting.not_mem_spot hp ho)
  by_cases heq : spot S.files o = spot S.files output
  · have hgone : S'.files.node? (spot S.files output) = none := by
      have hne : spot S.files output ≠ [] :=
        ne_nil_of_not_directory (by rw [hb]; exact fun hdir => by cases hdir)
      rw [hfiles, remove_eq_ok hdirect hb hremove, node?_drop _ _ hne, if_pos rfl]
    rw [heq, hgone] at hb'
    cases hb'
  · exact (hdrop.file_iff _ (fun hmem => heq (List.mem_singleton.mp hmem)) b').mp hb'

/-- An emission is not refused for the reason that the cache cannot be read. -/
theorem not_blocked_of_stored_eq_error {now : Stamp} {files : FileStore} {path? : Option Path}
    (h : stored now files path? = .error f) : ¬ Blocked f := by
  rintro ⟨e, rfl, hcause⟩
  cases path? with
  | none => cases h
  | some path =>
    rw [stored] at h
    split at h
    · rename_i e' hexists
      cases h
      rw [cause_of_exists?_eq_error hexists] at hcause
      simp at hcause
    · cases h
    · split at h
      · cases h
      · exact decode_ne_file h

/-- **Each step keeps the invariant.** -/
theorem Tracks.step {event : Event} (h : Tracks plan events es c S)
    (hstep : Step plan (c, S) event (c', S')) : ∃ es', Tracks plan (event :: events) es' c' S' := by
  have hother {event : Event} (hevent : ∀ l, event ≠ .emitted l ∧ event ≠ .invalidated l) :
      ∀ o ∈ plan.outputs, EmittedSince (spot S'.files o) (event :: events) ↔
        EmittedSince (spot S'.files o) events :=
    fun o _ => emittedSince_cons_iff (hevent _).1 (hevent _).2
  generalize hst : (c, S) = st, hst' : (c', S') = st' at hstep
  cases hstep with
  | @emitted c S force document output coordinate e st' ho hd hexec =>
    cases hst
    obtain ⟨r, c'', files, log, hrun, hemits⟩ := exec_emit (h.setting.direct output ho)
      h.setting.realCurrent force document c coordinate
    rw [hexec, ← hst'] at hrun
    cases hrun
    exact h.emitted ho hd hemits rfl
  | @refused st st' force document output coordinate f ho hd hexec hf =>
    subst hst hst'
    obtain ⟨r, c'', files, log, hrun, hemits⟩ := exec_emit (h.setting.direct output ho)
      h.setting.realCurrent force document c coordinate
    rw [hexec] at hrun
    cases hrun
    cases hemits with
    | refused _ hread hext => exact ⟨es, ((h.read hread).extend hext).happen (hother (by simp))⟩
    | unnoted _ _ hunreadable => exact absurd hf (not_blocked_of_stored_eq_error hunreadable)
  | @invalidated c S output st' ho hexec =>
    cases hst
    cases hknown : known c S with
    | error f =>
      obtain ⟨log, hrun⟩ := exec_invalidate_error output hknown
      rw [hexec] at hrun
      cases hrun
    | ok s =>
      obtain ⟨c'', log, hrun, hcase⟩ :=
        exec_invalidate_ok (h.setting.direct output ho) h.setting.realCurrent hknown
      rw [hexec, ← hst'] at hrun
      cases hrun
      obtain ⟨es', htracks⟩ := h.invalidated ho (h.entries_of_known hknown) hcase
      exact ⟨es', htracks.extend (Extends.refl _)⟩
  | @deleted c S output files ho hfile hremove =>
    cases hst
    cases hst'
    exact ⟨es, (h.delete ho hfile hremove rfl).happen (hother (by simp))⟩
  | @saved st st' r hexec =>
    subst hst hst'
    obtain ⟨r', c'', files, log, hrun, hpath, hstate, hcase⟩ := exec_save h.setting.directCache
    rw [hexec] at hrun
    cases hrun
    exact ⟨es, (h.save hpath hstate hcase rfl).happen (hother (by simp))⟩
  | @reopened c S hc =>
    cases hst
    cases hst'
    exact ⟨es, (h.reopen hc).happen (hother (by simp))⟩
  | @elapsed c S S'' hfiles =>
    cases hst
    cases hst'
    exact ⟨es, (h.extend (hfiles ▸ Extends.refl _)).happen (hother (by simp))⟩

/-- **Every run keeps the invariant.** -/
theorem Run.tracks {start st : Cache × Session} (hs : Setting plan start.1 start.2)
    (hb : Blank start.1 start.2) (hrun : Run plan start events st) :
    ∃ es, Tracks plan events es st.1 st.2 := by
  induction hrun with
  | start => exact ⟨[], Tracks.start hs hb⟩
  | step _ hstep ih =>
    obtain ⟨es, htracks⟩ := ih
    exact htracks.step hstep

end Emission

end ModulePins
