import Mathlib.Data.List.Infix
import ModulePins.Text.Basic

/-!
# Cuts

A text that was joined with a separator can be cut into its parts again, provided that the parts do
not hold the character that the separator begins with: a cut is looked for from the left, and there
is none that starts inside of a part. The rest of the separator may be anything, also a text that
overlaps itself.

A cut at the last occurrence is looked for from the right. What it is worth shows against the other
places where the separator occurs: they are all further left.

## Main results

* `Text.splitOn_join` — cutting a text that was joined
* `Text.splitLast?_eq_some`, `Text.splitLast?_eq_none` — the last cut
* `Text.last_cut_le` — the last cut against all others
-/

namespace ModulePins

namespace Text

variable {c : Char} {p acc s xs rest : List Char} {names : List String}

theorem afterStart?_eq_some_iff {p s r : List Char} : afterStart? p s = some r ↔ s = p ++ r := by
  induction p generalizing s with
  | nil => simp [afterStart?]
  | cons a p ih =>
    cases s with
    | nil => simp [afterStart?]
    | cons b s =>
      rw [afterStart?, List.cons_append, List.cons.injEq]
      split
      · rename_i hab
        simp [ih, hab]
      · rename_i hab
        simp [Ne.symm hab]

theorem afterStart?_eq_none_iff : afterStart? p s = none ↔ ∀ r, s ≠ p ++ r := by
  simp only [Option.eq_none_iff_forall_ne_some, ne_eq, afterStart?_eq_some_iff]

/-! ### Cuts from the left -/

/-- A cut at one character leaves it in no piece. -/
theorem not_mem_splitChars (hacc : c ∉ acc) :
    ∀ piece ∈ splitChars c [] acc s, c ∉ piece := by
  fun_induction splitChars c [] acc s with
  | case1 acc => simpa using hacc
  | case2 acc d s r hcut _ ih =>
    intro piece hpiece
    rcases List.mem_cons.mp hpiece with rfl | hpiece
    · simpa using hacc
    · exact ih List.not_mem_nil piece hpiece
  | case3 acc d s hcut ih =>
    refine ih fun hmem => ?_
    rcases List.mem_cons.mp hmem with rfl | hmem
    · simp [afterStart?] at hcut
    · exact hacc hmem

theorem splitChars_cons_of_ne {d : Char} (h : c ≠ d) (acc rest : List Char) :
    splitChars c p acc (d :: rest) = splitChars c p (d :: acc) rest := by
  rw [splitChars]
  split
  · rename_i hcut
    simp [afterStart?, h] at hcut
  · rfl

/-- A text without the first character of the separator is one piece. -/
theorem splitChars_of_not_mem (h : c ∉ s) : splitChars c p acc s = [acc.reverse ++ s] := by
  induction s generalizing acc with
  | nil => rw [splitChars, List.append_nil]
  | cons d s ih =>
    rw [List.mem_cons, not_or] at h
    rw [splitChars_cons_of_ne h.1, ih h.2, List.reverse_cons, List.append_assoc,
      List.singleton_append]

theorem splitChars_separator (c : Char) (p acc rest : List Char) :
    splitChars c p acc (c :: p ++ rest) = acc.reverse :: splitChars c p [] rest := by
  rw [List.cons_append, splitChars]
  split
  · rename_i r hcut
    obtain rfl : rest = r := by simpa [afterStart?_eq_some_iff] using hcut
    rfl
  · rename_i hcut
    exact absurd rfl (afterStart?_eq_none_iff.mp hcut rest)

/-- The first cut. -/
theorem splitChars_cut (h : c ∉ xs) :
    splitChars c p acc (xs ++ (c :: p ++ rest)) =
      (acc.reverse ++ xs) :: splitChars c p [] rest := by
  induction xs generalizing acc with
  | nil => rw [List.nil_append, splitChars_separator, List.append_nil]
  | cons x xs ih =>
    rw [List.mem_cons, not_or] at h
    rw [List.cons_append, splitChars_cons_of_ne h.1, ih h.2, List.reverse_cons, List.append_assoc,
      List.singleton_append]

/-- What stands behind the last cut at one character belongs to the last piece. -/
theorem exists_splitChars_append (h : c ∉ rest) (acc xs : List Char) :
    ∃ pieces last, splitChars c [] acc (xs ++ rest) = pieces ++ [last] ∧ rest <:+ last := by
  induction xs generalizing acc with
  | nil => exact ⟨[], _, splitChars_of_not_mem h, List.suffix_append _ _⟩
  | cons x xs ih =>
    rw [List.cons_append]
    by_cases hx : c = x
    · obtain ⟨pieces, last, heq, hlast⟩ := ih []
      subst hx
      exact ⟨acc.reverse :: pieces, last,
        by rw [← List.singleton_append, splitChars_separator, heq, List.cons_append], hlast⟩
    · obtain ⟨pieces, last, heq, hlast⟩ := ih (x :: acc)
      exact ⟨pieces, last, by rw [splitChars_cons_of_ne hx, heq], hlast⟩

theorem splitChars_intercalate {pieces : List (List Char)} (hne : pieces ≠ [])
    (h : ∀ piece ∈ pieces, c ∉ piece) :
    splitChars c p [] ((c :: p).intercalate pieces) = pieces := by
  induction pieces with
  | nil => exact absurd rfl hne
  | cons piece pieces ih =>
    obtain ⟨hpiece, hpieces⟩ := List.forall_mem_cons.mp h
    cases pieces with
    | nil =>
      have hone : splitChars c p [] piece = [[].reverse ++ piece] := splitChars_of_not_mem hpiece
      simpa [List.intercalate] using hone
    | cons next pieces =>
      have hcut : (c :: p).intercalate (piece :: next :: pieces) =
          piece ++ (c :: p ++ (c :: p).intercalate (next :: pieces)) := by
        simp [List.intercalate]
      rw [hcut, splitChars_cut hpiece, ih (by simp) hpieces]
      rfl

/-- **Cutting a text that was joined.** -/
theorem splitOn_join {separator : String} (hseparator : separator.toList = c :: p) (hne : names ≠ [])
    (h : ∀ name ∈ names, c ∉ name.toList) : splitOn separator (join separator names) = names := by
  rw [splitOn, hseparator]
  dsimp only
  rw [join, String.toList_intercalate, hseparator,
    splitChars_intercalate (by simpa using hne) (by simpa using h), List.map_map]
  simp

theorem mem_of_mem_join {separator : String} (h : c ∈ (join separator names).toList) :
    c ∈ separator.toList ∨ ∃ name ∈ names, c ∈ name.toList := by
  induction names with
  | nil => simp [join] at h
  | cons name names ih =>
    cases names with
    | nil =>
      rw [join, String.intercalate_singleton] at h
      exact .inr ⟨name, List.mem_cons_self, h⟩
    | cons next names =>
      rw [join, String.intercalate_cons_cons, String.toList_append, String.toList_append,
        List.mem_append, List.mem_append] at h
      rcases h with (h | h) | h
      · exact .inr ⟨name, List.mem_cons_self, h⟩
      · exact .inl h
      · exact (ih h).imp_right fun ⟨n, hn, hc⟩ => ⟨n, List.mem_cons_of_mem _ hn, hc⟩

theorem replaceChar_of_not_mem {a b : Char} {s : String} (h : a ∉ s.toList) :
    replaceChar a b s = s := by
  have hsame : (s.toList.map fun c => if c = a then b else c) = s.toList :=
    (List.map_congr_left fun c hc => if_neg fun (heq : c = a) => h (heq ▸ hc)).trans (List.map_id _)
  rw [replaceChar, hsame, String.ofList_toList]

/-! ### The last cut -/

/-- What a search from the right finds: `back` is the separator and `t` the text, both reversed, and
what was passed holds no occurrence. -/
theorem lastCut_eq_some {back after t before behind : List Char}
    (h : lastCut back after t = some (before, behind)) :
    ∃ passed, t = passed ++ back ++ before.reverse ∧ behind = passed.reverse ++ after ∧
      ∀ xs ys, t = xs ++ back ++ ys → passed.length ≤ xs.length := by
  induction t generalizing after with
  | nil =>
    rw [lastCut] at h
    split at h
    · rename_i hback
      cases h
      exact ⟨[], by simp [List.isEmpty_iff.mp hback], rfl, by simp⟩
    · cases h
  | cons d t ih =>
    rw [lastCut] at h
    split at h
    · rename_i r hcut
      cases h
      refine ⟨[], ?_, rfl, by simp⟩
      rw [List.nil_append, List.reverse_reverse]
      exact afterStart?_eq_some_iff.mp hcut
    · rename_i hcut
      obtain ⟨passed, ht, hbehind, hfirst⟩ := ih h
      refine ⟨d :: passed, by rw [ht]; simp, by rw [hbehind]; simp, fun xs ys heq => ?_⟩
      cases xs with
      | nil => exact absurd heq (afterStart?_eq_none_iff.mp hcut ys)
      | cons x xs =>
        rw [List.cons_append, List.cons_append, List.cons.injEq] at heq
        exact Nat.succ_le_succ (hfirst xs ys heq.2)

theorem lastCut_eq_none {back after t : List Char} (h : lastCut back after t = none)
    (xs ys : List Char) : t ≠ xs ++ back ++ ys := by
  induction t generalizing after xs with
  | nil =>
    rw [lastCut] at h
    split at h
    · cases h
    · rename_i hback
      intro heq
      simp_all
  | cons d t ih =>
    rw [lastCut] at h
    split at h
    · cases h
    · rename_i hcut
      intro heq
      cases xs with
      | nil => exact afterStart?_eq_none_iff.mp hcut ys heq
      | cons x xs =>
        rw [List.cons_append, List.cons_append, List.cons.injEq] at heq
        exact ih h xs heq.2

variable {separator text before after left right : String}

/-- **The last cut.** All others leave more behind them. -/
theorem splitLast?_eq_some (h : splitLast? separator text = some (before, after)) :
    text = before ++ separator ++ after ∧
      ∀ left right, text = left ++ separator ++ right → after.length ≤ right.length := by
  obtain ⟨⟨b, a⟩, hcut, hpair⟩ := Option.map_eq_some_iff.mp h
  obtain ⟨rfl, rfl⟩ := Prod.mk.inj hpair
  obtain ⟨passed, htext, rfl, hfirst⟩ := lastCut_eq_some hcut
  constructor
  · rw [← String.toList_inj, ← List.reverse_inj, htext]
    simp
  · rintro left right rfl
    have hle := hfirst right.toList.reverse left.toList.reverse (by simp)
    simpa [String.length_toList] using hle

theorem splitLast?_eq_none (h : splitLast? separator text = none) (left right : String) :
    text ≠ left ++ separator ++ right := by
  rintro rfl
  refine lastCut_eq_none (Option.map_eq_none_iff.mp h) right.toList.reverse left.toList.reverse ?_
  simp

/-- **The last cut against another one.** What lies between the two ends in the separator, if
there is anything. -/
theorem last_cut_le (h : splitLast? separator text = some (before, after))
    (hcut : text = left ++ separator ++ right) :
    ∃ between : List Char, right.toList = between ++ after.toList ∧
      before.toList ++ separator.toList = left.toList ++ separator.toList ++ between := by
  obtain ⟨htext, hlast⟩ := splitLast?_eq_some h
  have hlists : left.toList ++ separator.toList ++ right.toList =
      before.toList ++ separator.toList ++ after.toList := by
    rw [← String.toList_append, ← String.toList_append, ← hcut, htext, String.toList_append,
      String.toList_append]
  have hlength : after.toList.length ≤ right.toList.length := by
    rw [String.length_toList, String.length_toList]
    exact hlast left right hcut
  obtain ⟨between, hbetween⟩ : after.toList <:+ right.toList :=
    List.suffix_of_suffix_length_le ⟨_, hlists.symm⟩ (List.suffix_append _ _) hlength
  refine ⟨between, hbetween.symm, ?_⟩
  rw [← hbetween, ← List.append_assoc] at hlists
  exact (List.append_cancel_right hlists).symm

end Text

end ModulePins
