import ModulePins.Emission.Cache
import ModulePins.Proofs.Json.RoundTrip
import ModulePins.Proofs.Stamp

/-!
# Cache states

Saving and loading lose nothing of a state, provided no key is noted twice and the version is short
enough to be read, which is `CacheState.Sound`. The version that a file writes is short enough
because the reader takes no longer one.

## Main results

* `CacheState.readable_of_ofJson?` — the version of a state that has been read can be read again
* `CacheState.ofJson?_toJson` — a sound state as data and back
* `Cache.parse_toText` — the text of a sound state, as it is read from a file
-/

namespace ModulePins

namespace CacheState

variable {s : CacheState} {now : Stamp}

/-! ### Soundness -/

/-- No key is noted twice, and the version can be read again. -/
structure Sound (s : CacheState) : Prop where
  nodup : (s.entries.map Prod.fst).Nodup
  readable : Number.isReadable s.version = true

theorem readable_one : Number.isReadable 1 = true :=
  decide_eq_true ((Json.lt_tenPow_iff (by decide)).mpr (by decide : (Nat.toDigits 10 1).length ≤ _))

theorem readable_of_version? {v : Json} {i : ℤ} (h : version? v = some i) :
    Number.isReadable i = true :=
  (Option.filter_eq_some_iff.mp h).2

theorem readable_of_ofJson? {v : Json} (h : ofJson? now v = some s) :
    Number.isReadable s.version = true := by
  unfold ofJson? at h
  split at h
  · simp only [Option.bind_eq_bind] at h
    split at h
    all_goals
      obtain ⟨version, hversion, h⟩ := Option.bind_eq_some_iff.mp h
      have hreadable : Number.isReadable version = true := by
        first
          | exact readable_of_version? hversion
          | cases hversion; exact readable_one
      split at h
      all_goals
        obtain ⟨entries, -, h⟩ := Option.bind_eq_some_iff.mp h
        split at h
        · cases h
          exact hreadable
        · cases h
  · cases h

/-! ### As data -/

theorem plain_entryToJson (e : CacheEntry) : (entryToJson e).Plain := by
  simp [entryToJson, Json.Plain, Json.MembersPlain]

theorem plain_toJson (h : Sound s) : s.toJson.Plain := by
  have hmembers (es : List (String × CacheEntry)) :
      Json.MembersPlain (es.map fun e => (e.1, entryToJson e.2)) := by
    induction es with
    | nil => trivial
    | cons e es ih => exact ⟨plain_entryToJson e.2, ih⟩
  simp [toJson, Json.Plain, Json.MembersPlain, h.readable, hmembers, Function.comp_def]
  exact h.nodup

theorem entryOfJson?_entryToJson (e : CacheEntry) : entryOfJson? now (entryToJson e) = some e := by
  simp [entryOfJson?, entryToJson, member?, Keyed.find?, onlyHas, Stamp.ofJson?, Stamp.ofText?_text]

theorem entriesOfJson?_map (es : List (String × CacheEntry)) :
    entriesOfJson? now (.object (es.map fun e => (e.1, entryToJson e.2))) = some es := by
  rw [entriesOfJson?]
  induction es with
  | nil => rfl
  | cons e es ih => simp [entryOfJson?_entryToJson, ih]

/-- **A state is read back from its data.** -/
theorem ofJson?_toJson (h : Sound s) : ofJson? now s.toJson = some s := by
  have hversion : version? (.int s.version) = some s.version := by
    rw [version?, wholeNumber?, Option.filter_some, if_pos h.readable]
  simp [ofJson?, toJson, member?, Keyed.find?, onlyHas, hversion, entriesOfJson?_map]

end CacheState

/-- **The text of a state is read back.** -/
theorem Cache.parse_toText {s : CacheState} (h : s.Sound) (now : Stamp) :
    parse now (Text.unifyNewlines (s.toJson.toText .ascii).toList) = .ok (some s) := by
  rw [Json.toText, String.toList_ofList, Json.unifyNewlines_print (CacheState.plain_toJson h), parse,
    Json.read_print (CacheState.plain_toJson h)]
  simp only [CacheState.ofJson?_toJson h]

end ModulePins
