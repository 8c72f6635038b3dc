import ModulePins.Json.Reader
import ModulePins.Proofs.Except
import ModulePins.Proofs.Keyed

/-!
# Members of objects that have been read

An object that has been read names no member twice, and what its members hold has been read in turn.
Nothing is said about the text: `Read v` only means that there was one.

## Main results

* `Json.Read.nodup`, `Json.Read.members`
-/

namespace ModulePins

namespace Json

variable {s : List Char} {v : Json} {ms : List (String × Json)}

/-- The value stood somewhere in a text. -/
def Read (v : Json) : Prop := ∃ s p, readValue s = .ok p ∧ p.result = v

theorem read_of_read (h : read s = .ok v) : Read v := by
  rw [read] at h
  obtain ⟨p, hp, h⟩ := Except.bind_eq_ok_iff.mp h
  split at h
  · exact ⟨_, p, hp, Except.ok.inj h⟩
  · cases h

/-- What a reader returns is what it has read. -/
theorem result_ofRest {α : Type} {bound : ℕ} {a : α × List Char} {p : Parsed α bound}
    (h : Parsed.ofRest bound a = .ok p) : p.result = a.1 := by
  rw [Parsed.ofRest] at h
  split at h
  · cases h
    rfl
  · cases h

/-- A word or number is no object. -/
theorem readAtom_ne_object {rest : List Char} : readAtom s ≠ .ok (.object ms, rest) := by
  rw [readAtom]
  intro h
  split at h
  · rename_i p hp
    obtain ⟨w, hw, hp⟩ := List.exists_of_findSome?_eq_some hp
    obtain ⟨r, -, rfl⟩ := Option.map_eq_some_iff.mp hp
    obtain ⟨hobject, -⟩ := Prod.mk.inj (Except.ok.inj h)
    simp [words] at hw
    rcases hw with rfl | rfl | rfl | rfl | rfl | rfl <;> cases hobject
  · split at h
    · rename_i hnumber
      obtain ⟨rfl, -⟩ := Prod.mk.inj (Except.ok.inj h)
      rw [readNumber?] at hnumber
      dsimp only at hnumber
      split at hnumber
      · cases hnumber
      · split at hnumber
        · split at hnumber <;> cases hnumber
        · cases hnumber
    · cases h
    · cases h

/-- The members of an object hold what has been read. The induction is on a bound for the length of
the text. -/
theorem read_of_mem_readMembers (n : ℕ) : ∀ {s : List Char}
    {q : Parsed (List (String × Json)) s.length}, s.length < n → readMembers s = .ok q →
      ∀ m ∈ q.result, Read m.2 := by
  induction n with
  | zero => exact fun hn => absurd hn (Nat.not_lt_zero _)
  | succ n ih =>
    intro s q hn h
    rw [readMembers.eq_def] at h
    split at h
    · rename_i r
      obtain ⟨k, hk, h⟩ := Except.bind_eq_ok_iff.mp h
      obtain ⟨k', hk', h⟩ := Except.bind_eq_ok_iff.mp h
      split at h
      · rename_i r' hcolon
        obtain ⟨p, hp, h⟩ := Except.bind_eq_ok_iff.mp h
        have hread : Read p.result := ⟨_, p, hp, rfl⟩
        dsimp only at h
        split at h
        · rename_i r'' hcomma
          obtain ⟨q', hq', h⟩ := Except.bind_eq_ok_iff.mp h
          cases h
          have hlength : (skipSpace r'').length < n := by
            have h₁ := length_skipSpace r''
            have h₂ := length_skipSpace p.rest
            have h₃ := length_skipSpace r'
            have h₄ := length_skipSpace k'.rest
            have h₅ := p.shorter
            have h₆ := k'.shorter
            rw [hcomma] at h₂
            rw [hcolon] at h₄
            simp only [List.length_cons] at *
            omega
          intro m hm
          rcases List.mem_cons.mp hm with rfl | hm
          · exact hread
          · exact ih hlength hq' m hm
        · cases h
          intro m hm
          rw [List.mem_singleton.mp hm]
          exact hread
        · cases h
      · cases h
    · cases h

/-- An object that has been read has been read member by member. -/
theorem exists_readMembers (h : Read (.object ms)) :
    ms = [] ∨ ∃ s, ∃ q : Parsed (List (String × Json)) s.length,
      readMembers s = .ok q ∧ ms = Keyed.collapse Prod.fst q.result := by
  obtain ⟨s, p, hp, hresult⟩ := h
  rw [readValue.eq_def] at hp
  split at hp
  · obtain ⟨k, -, hp⟩ := Except.bind_eq_ok_iff.mp hp
    rw [result_ofRest hp] at hresult
    cases hresult
  · split at hp
    · cases hp
      cases hresult
    · obtain ⟨q, -, hp⟩ := Except.bind_eq_ok_iff.mp hp
      cases hp
      cases hresult
  · split at hp
    · cases hp
      cases hresult
      exact .inl rfl
    · obtain ⟨q, hq, hp⟩ := Except.bind_eq_ok_iff.mp hp
      cases hp
      cases hresult
      exact .inr ⟨_, q, hq, rfl⟩
  · obtain ⟨a, ha, hp⟩ := Except.bind_eq_ok_iff.mp hp
    rw [result_ofRest hp] at hresult
    obtain ⟨v, rest⟩ := a
    cases hresult
    exact absurd ha readAtom_ne_object

/-- No member is named twice. -/
theorem Read.nodup (h : Read (.object ms)) : (ms.map Prod.fst).Nodup := by
  rcases exists_readMembers h with rfl | ⟨s, q, -, rfl⟩
  · exact List.nodup_nil
  · exact Keyed.nodup_map_key_collapse _

/-- The members have been read. -/
theorem Read.members (h : Read (.object ms)) : ∀ m ∈ ms, Read m.2 := by
  rcases exists_readMembers h with rfl | ⟨s, q, hq, rfl⟩
  · exact fun m hm => by cases hm
  · exact fun m hm => read_of_mem_readMembers _ (Nat.lt_succ_self _) hq m (Keyed.mem_of_mem_collapse hm)

end Json

end ModulePins
