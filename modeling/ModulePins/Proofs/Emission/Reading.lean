import ModulePins.Proofs.Emission.Cache
import ModulePins.Proofs.Json.Members

/-!
# What is read from a cache file

A state that has been read is sound whatever the bytes were, so saving it loses nothing. The time at
which a file is read enters where an entry leaves out its own; version and digests do not depend on
it, and `CacheState.Alike` is what two readings of one file have in common.

## Main definitions

* `CacheState.digests` — the entries without their times
* `CacheState.Alike` — the same version and the same digests
* `CacheState.noted?` — the digest that is noted for a file

## Main results

* `Cache.sound_of_stored` — what has been read is sound
* `Cache.stored_time` — it does not matter when a cache file is read
-/

namespace ModulePins

namespace CacheState

variable {s s' : CacheState} {now : Stamp} {v : Json} {members : List (String × Json)}

/-! ### Digests -/

/-- The entries without their times. -/
def digests (s : CacheState) : List (String × String) := s.entries.map fun e => (e.1, e.2.hash)

/-- Two states that differ in times at most. -/
structure Alike (s s' : CacheState) : Prop where
  version : s'.version = s.version
  digests : s'.digests = s.digests

theorem Alike.refl (s : CacheState) : Alike s s := ⟨rfl, rfl⟩

/-- The digest that is noted for the file with a key. -/
def noted? (s : CacheState) (key : String) : Option String := (s.entry? key).map CacheEntry.hash

theorem noted?_eq (s : CacheState) (key : String) :
    s.noted? key = (Keyed.find? Prod.fst key s.digests).map Prod.snd := by
  rw [noted?, entry?, digests, Keyed.find?, Keyed.find?, List.find?_map, Option.map_map,
    Option.map_map]
  rfl

theorem noted?_congr (h : s'.digests = s.digests) (key : String) : s'.noted? key = s.noted? key := by
  rw [noted?_eq, noted?_eq, h]

theorem noted?_eq_some_iff {key hash : String} :
    s.noted? key = some hash ↔ ∃ e, s.entry? key = some e ∧ e.hash = hash := Option.map_eq_some_iff

theorem noted?_record (s : CacheState) (key : String) (e : CacheEntry) (k : String) :
    (s.record key e).noted? k = if key = k then some e.hash else s.noted? k := by
  rw [noted?, entry?, record, Keyed.find?_put]
  split <;> rfl

theorem Sound.record (h : s.Sound) (key : String) (e : CacheEntry) : (s.record key e).Sound :=
  ⟨Keyed.nodup_map_key_put h.nodup, h.readable⟩

theorem Sound.forget (h : s.Sound) (key : String) : (s.forget key).Sound :=
  ⟨Keyed.nodup_map_key_erase h.nodup, h.readable⟩

theorem sound_empty : empty.Sound := ⟨List.nodup_nil, readable_one⟩

/-! ### Reading data -/

/-- The version that members write. -/
def versionIn? (members : List (String × Json)) : Option ℤ :=
  match member? "version" members with
  | some v => version? v
  | none => some empty.version

/-- The entries that members write. -/
def entriesIn? (now : Stamp) (members : List (String × Json)) :
    Option (List (String × CacheEntry)) :=
  match member? "entries" members with
  | some v => entriesOfJson? now v
  | none => some empty.entries

theorem ofJson?_eq_some_iff : ofJson? now v = some s ↔ ∃ members, v = .object members ∧
    versionIn? members = some s.version ∧ entriesIn? now members = some s.entries ∧
    onlyHas ["version", "entries"] members = true := by
  have hobject (members : List (String × Json)) : ofJson? now (.object members) =
      (versionIn? members).bind fun version => (entriesIn? now members).bind fun entries =>
        if onlyHas ["version", "entries"] members then some ⟨version, entries⟩ else none := by
    rw [ofJson?, versionIn?, entriesIn?]
    cases member? "version" members <;> cases member? "entries" members <;> rfl
  cases v with
  | object members =>
    simp only [hobject, Option.bind_eq_some_iff, Option.ite_none_right_eq_some, Option.some.injEq,
      Json.object.injEq, exists_eq_left']
    constructor
    · rintro ⟨version, hversion, entries, hentries, honly, rfl⟩
      exact ⟨hversion, hentries, honly⟩
    · rintro ⟨hversion, hentries, honly⟩
      exact ⟨_, hversion, _, hentries, honly, rfl⟩
  | null | bool | int | float | str | array => simp [ofJson?]

theorem map_fst_entries {ms : List (String × Json)} {es : List (String × CacheEntry)}
    (h : entriesOfJson? now (.object ms) = some es) : es.map Prod.fst = ms.map Prod.fst := by
  rw [entriesOfJson?] at h
  induction ms generalizing es with
  | nil =>
    cases h
    rfl
  | cons m ms ih =>
    simp only [List.mapM_cons, Option.bind_eq_bind, Option.bind_eq_some_iff, Option.map_eq_some_iff] at h
    obtain ⟨e, ⟨e', -, rfl⟩, es', hes', h⟩ := h
    cases h
    rw [List.map_cons, List.map_cons, ih hes']

/-- **A state that has been read is sound.** -/
theorem sound_of_ofJson? (hv : v.Read) (h : ofJson? now v = some s) : s.Sound := by
  refine ⟨?_, readable_of_ofJson? h⟩
  obtain ⟨members, rfl, -, hentries, -⟩ := ofJson?_eq_some_iff.mp h
  rw [entriesIn?] at hentries
  split at hentries
  · rename_i w hw
    obtain ⟨m, hm, rfl⟩ := Option.map_eq_some_iff.mp hw
    have hread := hv.members m (List.mem_of_find?_eq_some hm)
    generalize m.2 = w at hentries hread
    cases w with
    | object ms =>
      rw [map_fst_entries hentries]
      exact hread.nodup
    | null | bool | int | float | str | array => cases hentries
  · rw [← Option.some.inj hentries]
    exact List.nodup_nil

theorem entryOfJson?_time {e : CacheEntry} (h : entryOfJson? now v = some e) (now' : Stamp) :
    ∃ e', entryOfJson? now' v = some e' ∧ e'.hash = e.hash := by
  unfold entryOfJson? at h ⊢
  split at h
  · rename_i members
    split at h
    · rename_i hash hhash
      dsimp only at h ⊢
      split at h
      · rename_i honly
        obtain ⟨t, ht, rfl⟩ := Option.map_eq_some_iff.mp h
        rw [if_pos honly]
        split at ht
        · exact ⟨⟨hash, t⟩, by rw [ht]; rfl, rfl⟩
        · exact ⟨⟨hash, now'⟩, rfl, rfl⟩
      · cases h
    · cases h
  · cases h

theorem entriesOfJson?_time {es : List (String × CacheEntry)} (h : entriesOfJson? now v = some es)
    (now' : Stamp) : ∃ es', entriesOfJson? now' v = some es' ∧
      es'.map (fun e => (e.1, e.2.hash)) = es.map fun e => (e.1, e.2.hash) := by
  cases v with
  | object ms =>
    rw [entriesOfJson?] at h ⊢
    induction ms generalizing es with
    | nil =>
      cases h
      exact ⟨[], rfl, rfl⟩
    | cons m ms ih =>
      simp only [List.mapM_cons, Option.bind_eq_bind, Option.bind_eq_some_iff,
        Option.map_eq_some_iff] at h
      obtain ⟨e, ⟨e₁, he₁, rfl⟩, es₁, hes₁, h⟩ := h
      cases h
      obtain ⟨e', he', hhash⟩ := entryOfJson?_time he₁ now'
      obtain ⟨es', hes', hmap⟩ := ih hes₁
      refine ⟨(m.1, e') :: es', ?_, ?_⟩
      · simp [he', hes']
      · simp [hhash, hmap]
  | null | bool | int | float | str | array => cases h

/-- It does not matter when a state is read. -/
theorem ofJson?_time (h : ofJson? now v = some s) (now' : Stamp) :
    ∃ s', ofJson? now' v = some s' ∧ Alike s s' := by
  obtain ⟨members, rfl, hversion, hentries, honly⟩ := ofJson?_eq_some_iff.mp h
  have hentries' : ∃ es', entriesIn? now' members = some es' ∧
      es'.map (fun e => (e.1, e.2.hash)) = s.entries.map fun e => (e.1, e.2.hash) := by
    rw [entriesIn?] at hentries ⊢
    split at hentries
    · exact entriesOfJson?_time hentries now'
    · exact ⟨_, rfl, by rw [← Option.some.inj hentries]⟩
  obtain ⟨es', hes', hmap⟩ := hentries'
  exact ⟨⟨s.version, es'⟩, ofJson?_eq_some_iff.mpr ⟨members, rfl, hversion, hes', honly⟩, rfl, hmap⟩

end CacheState

namespace Cache

variable {s : CacheState} {now : Stamp} {bytes : ByteArray} {files : FileStore}

theorem decode_eq_ok_iff : decode now bytes = .ok s ↔ ∃ text, String.fromUTF8? bytes = some text ∧
    ((∃ v, Json.read (Text.unifyNewlines text.toList) = .ok v ∧
        (CacheState.ofJson? now v).getD .empty = s) ∨
      Json.read (Text.unifyNewlines text.toList) = .error .malformed ∧ s = .empty) := by
  rw [decode]
  cases String.fromUTF8? bytes with
  | none => simp
  | some text =>
    simp only [Option.some.injEq, exists_eq_left', parse]
    cases Json.read (Text.unifyNewlines text.toList) with
    | ok v => simp [Except.map]
    | error f => cases f <;> simp [Except.map, eq_comm]

/-- **What has been read is sound.** -/
theorem sound_of_decode (h : decode now bytes = .ok s) : s.Sound := by
  obtain ⟨text, -, ⟨v, hv, hs⟩ | ⟨-, rfl⟩⟩ := decode_eq_ok_iff.mp h
  · cases hjson : CacheState.ofJson? now v with
    | none =>
      rw [hjson] at hs
      exact hs ▸ CacheState.sound_empty
    | some s' =>
      rw [hjson] at hs
      exact hs ▸ CacheState.sound_of_ofJson? (Json.read_of_read hv) hjson
  · exact CacheState.sound_empty

/-- It does not matter when the bytes of a cache file are read. -/
theorem decode_time (h : decode now bytes = .ok s) (now' : Stamp) :
    ∃ s', decode now' bytes = .ok s' ∧ s.Alike s' := by
  obtain ⟨text, htext, ⟨v, hv, hs⟩ | ⟨hbroken, rfl⟩⟩ := decode_eq_ok_iff.mp h
  · refine ⟨_, decode_eq_ok_iff.mpr ⟨text, htext, .inl ⟨v, hv, rfl⟩⟩, ?_⟩
    cases hjson : CacheState.ofJson? now v with
    | none =>
      have hnone : CacheState.ofJson? now' v = none := by
        by_contra hsome
        obtain ⟨s', hs'⟩ := Option.ne_none_iff_exists'.mp hsome
        obtain ⟨s'', hs'', -⟩ := CacheState.ofJson?_time hs' now
        rw [hjson] at hs''
        cases hs''
      rw [hjson] at hs
      rw [hnone, ← hs]
      exact .refl _
    | some s₁ =>
      obtain ⟨s', hs', halike⟩ := CacheState.ofJson?_time hjson now'
      rw [hjson] at hs
      rw [hs', ← hs]
      exact halike
  · exact ⟨.empty, decode_eq_ok_iff.mpr ⟨text, htext, .inr ⟨hbroken, rfl⟩⟩, .refl _⟩

variable {path? : Option Path}

theorem sound_of_stored (h : stored now files path? = .ok s) : s.Sound := by
  cases path? with
  | none =>
    cases h
    exact CacheState.sound_empty
  | some path =>
    rw [stored] at h
    split at h
    · cases h
    · cases h
      exact CacheState.sound_empty
    · split at h
      · cases h
        exact CacheState.sound_empty
      · exact sound_of_decode h

variable {c c' : Cache} {S : Session}

theorem sound_of_known (hsound : ∀ s ∈ c.state, s.Sound) (h : known c S = .ok s) : s.Sound := by
  rw [known] at h
  cases hstate : c.state with
  | some s' =>
    rw [hstate] at h
    cases h
    exact hsound s hstate
  | none =>
    rw [hstate] at h
    exact sound_of_stored h

theorem sound_of_atMostRead (hsound : ∀ s ∈ c.state, s.Sound) (h : AtMostRead S c c') :
    ∀ s ∈ c'.state, s.Sound := by
  rcases h with rfl | ⟨-, s, hs, rfl⟩
  · exact hsound
  · intro s' hs'
    cases hs'
    exact sound_of_stored hs

/-- **It does not matter when a cache file is read.** -/
theorem stored_time (h : stored now files path? = .ok s) (now' : Stamp) :
    ∃ s', stored now' files path? = .ok s' ∧ s.Alike s' := by
  cases path? with
  | none => exact ⟨s, h, .refl s⟩
  | some path =>
    rw [stored] at h ⊢
    split at h
    · cases h
    · exact ⟨s, h, .refl s⟩
    · split at h
      · exact ⟨s, h, .refl s⟩
      · exact decode_time h now'

end Cache

end ModulePins
