import Mathlib.Algebra.Group.Nat.Hom
import Mathlib.Data.List.Basic
import Mathlib.Data.Nat.Init
import ModulePins.Text.Basic

/-!
# Digits

Reading the digits of a number gives the number back. The bases are those whose digits the library
writes, up to sixteen; a width adds zeros in front and changes nothing else, so that a number below
the matching power of the base has digits of exactly that width.

## Main results

* `Text.readNat?_natDigits` — reading what was written
* `Text.length_natDigits` — numbers that fit have the width asked for
* `Text.isDigit_of_mem_natDigits` — decimal digits are `0` to `9`
-/

namespace ModulePins

namespace Text

variable {b w n d : ℕ} {c : Char} {cs ds rest : List Char}

theorem digitValue?_digitChar (hd : d < b) (hb : b ≤ 16) :
    digitValue? b (Nat.digitChar d) = some d := by
  have key : ∀ b ≤ 16, ∀ d < b, digitValue? b (Nat.digitChar d) = some d := by decide
  exact key b hb d hd

theorem readNat?_concat :
    readNat? b (cs ++ [c]) = (readNat? b cs).bind fun n => (digitValue? b c).map (n * b + ·) := by
  rw [readNat?, List.foldlM_append]
  simp only [List.foldlM_cons, List.foldlM_nil, bind_pure]
  rfl

/-- A character that is no digit spoils the number. -/
theorem readNat?_eq_none (hmem : c ∈ cs) (hc : digitValue? b c = none) : readNat? b cs = none := by
  obtain ⟨before, after, rfl⟩ := List.append_of_mem hmem
  rw [readNat?, List.foldlM_append]
  simp only [List.foldlM_cons, hc, Option.map_none]
  cases List.foldlM (fun n c => (digitValue? b c).map (n * b + ·)) 0 before <;> rfl

theorem readNat?_zeros (hb : 1 < b) (w : ℕ) (ds : List Char) :
    readNat? b (List.replicate w '0' ++ ds) = readNat? b ds := by
  induction w with
  | zero => rfl
  | succ w ih =>
    have hzero : digitValue? b '0' = some 0 := if_pos (show 0 < b by omega)
    rw [← ih, List.replicate_succ, List.cons_append, readNat?, List.foldlM_cons, hzero]
    simp [readNat?]

theorem readNat?_toDigits (hb : 1 < b) (hb' : b ≤ 16) (n : ℕ) :
    readNat? b (Nat.toDigits b n) = some n := by
  induction n using Nat.strong_induction_on with
  | _ n ih =>
    rw [Nat.toDigits_eq_if hb]
    split
    · rename_i hn
      rw [← List.nil_append [n.digitChar], readNat?_concat, digitValue?_digitChar hn hb']
      simp [readNat?]
    · rename_i hn
      have hlt : n / b < n := Nat.div_lt_self (by omega) hb
      have hmod : n % b < b := Nat.mod_lt n (by omega)
      rw [readNat?_concat, ih _ hlt, digitValue?_digitChar hmod hb']
      simp [Nat.div_add_mod']

theorem toList_natDigits (b w n : ℕ) :
    (natDigits b w n).toList =
      List.replicate (w - (Nat.toDigits b n).length) '0' ++ Nat.toDigits b n := by
  rw [natDigits, String.toList_ofList]

theorem readNat?_natDigits (hb : 1 < b) (hb' : b ≤ 16) (w n : ℕ) :
    readNat? b (natDigits b w n).toList = some n := by
  rw [toList_natDigits, readNat?_zeros hb, readNat?_toDigits hb hb']

theorem length_natDigits (hb : 1 < b) (hw : 0 < w) (hn : n < b ^ w) :
    (natDigits b w n).toList.length = w := by
  have hle := (Nat.length_toDigits_le_iff hb hw).mpr hn
  rw [toList_natDigits, List.length_append, List.length_replicate]
  omega

theorem isDigit_of_mem_natDigits (h : c ∈ (natDigits 10 w n).toList) : c.isDigit = true := by
  rw [toList_natDigits, List.mem_append] at h
  rcases h with h | h
  · rw [(List.mem_replicate.mp h).2]
    rfl
  · exact Nat.isDigit_of_mem_toDigits (by decide) (by decide) h

/-! ### The end of a run of digits -/

theorem takeWhile_isDigit_append (hds : ∀ c ∈ ds, c.isDigit = true)
    (hrest : ∀ c ∈ rest.head?, c.isDigit = false) :
    (ds ++ rest).takeWhile Char.isDigit = ds := by
  rw [List.takeWhile_append_of_pos hds]
  cases rest with
  | nil => simp
  | cons c s => simp [hrest c rfl]

theorem dropWhile_isDigit_append (hds : ∀ c ∈ ds, c.isDigit = true)
    (hrest : ∀ c ∈ rest.head?, c.isDigit = false) :
    (ds ++ rest).dropWhile Char.isDigit = rest := by
  rw [List.dropWhile_append_of_pos hds]
  cases rest with
  | nil => rfl
  | cons c s => exact List.dropWhile_cons_of_neg (by simp [hrest c rfl])

/-! ### Fixed widths -/

/-- Two digits for a number below a hundred. -/
theorem natDigits_two (hn : n < 100) :
    ∃ c₁ c₂, (natDigits 10 2 n).toList = [c₁, c₂] ∧ readNat? 10 [c₁, c₂] = some n := by
  obtain ⟨c₁, c₂, h⟩ := List.length_eq_two.mp (length_natDigits (b := 10) (by decide) (by decide) hn)
  exact ⟨c₁, c₂, h, h ▸ readNat?_natDigits (by decide) (by decide) 2 n⟩

/-- Four digits for a number below the fourth power of the base. -/
theorem natDigits_four (hb : 1 < b) (hb' : b ≤ 16) (hn : n < b ^ 4) :
    ∃ c₁ c₂ c₃ c₄, (natDigits b 4 n).toList = [c₁, c₂, c₃, c₄] ∧
      readNat? b [c₁, c₂, c₃, c₄] = some n := by
  have hlen := length_natDigits hb (by decide) hn
  match h : (natDigits b 4 n).toList, hlen with
  | [c₁, c₂, c₃, c₄], _ => exact ⟨c₁, c₂, c₃, c₄, rfl, h ▸ readNat?_natDigits hb hb' 4 n⟩

end Text

end ModulePins
