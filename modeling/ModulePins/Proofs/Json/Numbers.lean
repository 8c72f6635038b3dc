import ModulePins.Json.Printer
import ModulePins.Json.Reader
import ModulePins.Proofs.Text.Digits

/-!
# JSON numbers and words

What stands for itself in a JSON text: `null`, the truth values and whole numbers. A number has no
end mark, so the reader finds its end by what follows. `Stops` says that what follows cannot go on
a number, which is so behind every value of a printed text: either nothing follows, or a comma, or
a line end.

Whole numbers are read back as long as they have at most `Number.maxDigits` digits; a longer one is
printed in full and then refused.

## Main results

* `Json.readNumber?_signed` — the digits of a number, behind a sign or not
* `Json.readAtom_int`, `Json.readAtom_null`, `Json.readAtom_bool`
-/

namespace ModulePins

namespace Json

variable {n : ℕ} {i : ℤ} {c : Char} {s rest : List Char}

/-- What may follow a value in a printed text. -/
def Stops (rest : List Char) : Prop := ∀ c ∈ rest.head?, c = ',' ∨ c = '\n'

theorem stops_nil : Stops [] := by simp [Stops]

theorem stops_cons (h : c = ',' ∨ c = '\n') : Stops (c :: s) := by simpa [Stops] using h

theorem takeDigits_append {ds : List Char} (hds : ∀ c ∈ ds, c.isDigit = true)
    (hrest : Stops rest) : takeDigits (ds ++ rest) = (ds, rest) := by
  have hhead : ∀ c ∈ rest.head?, c.isDigit = false := by
    intro c hc
    rcases hrest c hc with rfl | rfl <;> rfl
  rw [takeDigits, Text.takeWhile_isDigit_append hds hhead, Text.dropWhile_isDigit_append hds hhead]

theorem takeFraction_of_stops (hrest : Stops rest) : takeFraction rest = ([], rest) := by
  rw [takeFraction]
  rintro s rfl
  rcases hrest '.' rfl with h | h <;> cases h

theorem takeExponent_of_stops (hrest : Stops rest) : takeExponent rest = (none, rest) := by
  cases rest with
  | nil => rfl
  | cons c s =>
    rw [takeExponent, if_neg]
    rcases hrest c rfl with rfl | rfl <;> decide

/-- The digits of a number other than zero start with another digit than zero. -/
theorem toDigits_eq_cons (hn : 0 < n) :
    ∃ d ds, Nat.toDigits 10 n = d :: ds ∧ d ≠ '0' := by
  induction n using Nat.strong_induction_on with
  | _ n ih =>
    rw [Nat.toDigits_eq_if (by decide)]
    split
    · rename_i hlt
      have key : ∀ k < 10, 0 < k → Nat.digitChar k ≠ '0' := by decide
      exact ⟨_, _, rfl, key n hlt hn⟩
    · obtain ⟨d, ds, hds, hd⟩ := ih (n / 10) (by omega) (by omega)
      exact ⟨d, ds ++ [(n % 10).digitChar], by rw [hds, List.cons_append], hd⟩

/-- The digits of a number, with a sign before them or not. -/
def signed (negative : Bool) (n : ℕ) : List Char :=
  (if negative then ['-'] else []) ++ Nat.toDigits 10 n

theorem isDigit_toDigits (n : ℕ) : ∀ c ∈ Nat.toDigits 10 n, c.isDigit = true :=
  fun _ => Nat.isDigit_of_mem_toDigits (by decide) (by decide)

/-- How a number starts. -/
theorem signed_eq_cons (negative : Bool) (n : ℕ) :
    ∃ c t, signed negative n = c :: t ∧ (c = '-' ∨ c.isDigit = true) := by
  cases negative with
  | true => exact ⟨'-', Nat.toDigits 10 n, rfl, .inl rfl⟩
  | false =>
    obtain ⟨d, ds, hds⟩ := List.exists_cons_of_ne_nil (Nat.toDigits_ne_nil (n := n) (b := 10))
    exact ⟨d, ds, hds, .inr (isDigit_toDigits n d (hds ▸ List.mem_cons_self))⟩

theorem takeWhole_toDigits (hrest : Stops rest) :
    takeWhole (Nat.toDigits 10 n ++ rest) = (Nat.toDigits 10 n, rest) := by
  rcases Nat.eq_zero_or_pos n with rfl | hpos
  · rfl
  · have htake := takeDigits_append (isDigit_toDigits n) hrest
    obtain ⟨d, ds, hds, hd⟩ := toDigits_eq_cons hpos
    rw [hds, List.cons_append] at htake ⊢
    rw [takeWhole, htake]
    rintro s ⟨rfl, -⟩
    exact hd rfl

theorem takeMinus_signed (negative : Bool) :
    takeMinus (signed negative n ++ rest) = (negative, Nat.toDigits 10 n ++ rest) := by
  cases negative with
  | true => rfl
  | false =>
    rw [signed, if_neg Bool.false_ne_true, List.nil_append]
    cases hds : Nat.toDigits 10 n with
    | nil => exact absurd hds Nat.toDigits_ne_nil
    | cons d ds =>
      rw [List.cons_append, takeMinus]
      rintro s ⟨rfl, -⟩
      exact absurd (isDigit_toDigits n '-' (hds ▸ List.mem_cons_self)) (by decide)

theorem lt_tenPow_iff {k : ℕ} (hk : 0 < k) :
    n < Double.tenPow k ↔ (Nat.toDigits 10 n).length ≤ k :=
  (Nat.length_toDigits_le_iff (by decide) hk).symm

/-- **The digits of a number are read back**, if there are not too many of them. -/
theorem readNumber?_signed {negative : Bool} (hn : n < Double.tenPow Number.maxDigits)
    (hrest : Stops rest) :
    readNumber? (signed negative n ++ rest) =
      some (.ok (.int (if negative then -(n : ℤ) else n)), rest) := by
  have hlen : ¬ Number.maxDigits < (Nat.toDigits 10 n).length :=
    Nat.not_lt.mpr ((lt_tenPow_iff (by decide)).mp hn)
  have hne : (Nat.toDigits 10 n).isEmpty = false := by simp
  rw [readNumber?, takeMinus_signed]
  simp only [takeWhole_toDigits hrest, hne, Bool.false_eq_true, if_false,
    takeFraction_of_stops hrest, takeExponent_of_stops hrest, List.append_nil, if_neg hlen,
    Text.readNat?_toDigits (b := 10) (by decide) (by decide), Option.getD_some]

theorem toList_int (i : ℤ) : (toString i).toList = signed (decide (i < 0)) i.natAbs := by
  rw [Int.toString_eq_repr, Int.repr_eq_if]
  by_cases h : i < 0
  · have habs : (-i).toNat = i.natAbs := by omega
    rw [if_neg (by omega), decide_eq_true h, String.toList_append, Nat.toList_repr, habs]
    rfl
  · have habs : i.toNat = i.natAbs := by omega
    rw [if_pos (by omega), decide_eq_false h, Nat.toList_repr, habs]
    rfl

/-! ### Words -/

theorem readAtom_null (rest : List Char) :
    readAtom ("null".toList ++ rest) = .ok (.null, rest) := by
  rfl

theorem readAtom_bool (b : Bool) (rest : List Char) :
    readAtom ((if b then "true" else "false").toList ++ rest) = .ok (.bool b, rest) := by
  cases b <;> rfl

/-- No word starts as a number does. -/
theorem afterStart?_word {w : String × Json} (hw : w ∈ words) (negative : Bool) :
    Text.afterStart? w.1.toList (signed negative n ++ rest) = none := by
  obtain ⟨d, ds, hds⟩ := List.exists_cons_of_ne_nil (Nat.toDigits_ne_nil (n := n) (b := 10))
  have hdigit : d.isDigit = true := isDigit_toDigits n d (hds ▸ List.mem_cons_self)
  have hne {c : Char} (hc : c.isDigit = false) : c ≠ d := fun h => by simp [h, hdigit] at hc
  rw [signed, hds]
  simp only [words, List.mem_cons, List.not_mem_nil, or_false] at hw
  cases negative with
  | false =>
    rcases hw with rfl | rfl | rfl | rfl | rfl | rfl <;> exact if_neg (hne (by decide))
  | true =>
    rcases hw with rfl | rfl | rfl | rfl | rfl | rfl
    case inr.inr.inr.inr.inr => exact if_neg (hne (by decide))
    all_goals rfl

theorem readAtom_int (hi : Number.isReadable i = true) (hrest : Stops rest) :
    readAtom ((toString i).toList ++ rest) = .ok (.int i, rest) := by
  have hwords : words.findSome? (fun w => (Text.afterStart? w.1.toList
      (signed (decide (i < 0)) i.natAbs ++ rest)).map fun r => (w.2, r)) = none := by
    rw [List.findSome?_eq_none_iff]
    intro w hw
    rw [afterStart?_word hw, Option.map_none]
  have habs : (if decide (i < 0) = true then -(i.natAbs : ℤ) else i.natAbs) = i := by
    simp only [decide_eq_true_eq]
    omega
  rw [readAtom, toList_int, hwords, readNumber?_signed (of_decide_eq_true hi) hrest, habs]

end Json

end ModulePins
