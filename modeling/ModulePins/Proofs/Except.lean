/-!
# Laws of results

A result of a step that may fail is taken apart from the end: a chain of steps that succeeds has
succeeded at each of them.

`Except.Ends` says how a step can end, with a condition on results and one on errors. For a chain of
steps it is worked out from the front: the first step has to end so that the rest of the chain does.
-/

namespace Except

variable {ε ε' α β : Type}

theorem bind_eq_ok_iff {x : Except ε α} {k : α → Except ε β} {b : β} :
    (x >>= k) = .ok b ↔ ∃ a, x = .ok a ∧ k a = .ok b := by
  cases x with
  | error e =>
    constructor
    · intro h
      cases h
    · rintro ⟨a, ha, -⟩
      cases ha
  | ok a =>
    constructor
    · intro h
      exact ⟨a, rfl, h⟩
    · rintro ⟨a', ha', h⟩
      cases ha'
      exact h

@[simp] theorem mapError_ok (g : ε → ε') (a : α) : (ok a : Except ε α).mapError g = ok a := rfl

@[simp] theorem mapError_error (g : ε → ε') (e : ε) :
    (error e : Except ε α).mapError g = error (g e) := rfl

theorem toOption_eq_some_iff {r : Except ε α} {a : α} : r.toOption = some a ↔ r = .ok a := by
  cases r <;> simp [Except.toOption]

theorem exists_of_isOk {r : Except ε α} (h : r.isOk = true) : ∃ a, r = .ok a := by
  cases r with
  | ok a => exact ⟨a, rfl⟩
  | error e => cases h

/-! ### Ways to end -/

/-- The step ends in a result with `Q` or in an error with `P`. -/
def Ends (P : ε → Prop) (Q : α → Prop) : Except ε α → Prop
  | ok a => Q a
  | error e => P e

variable {P : ε → Prop} {Q Q' : α → Prop} {R : β → Prop} {x : Except ε α} {k : α → Except ε β}

@[simp] theorem ends_ok {a : α} : Ends P Q (ok a) ↔ Q a := Iff.rfl

@[simp] theorem ends_pure {a : α} : Ends P Q (pure a : Except ε α) ↔ Q a := Iff.rfl

@[simp] theorem ends_error {e : ε} : Ends P Q (error e) ↔ P e := Iff.rfl

@[simp] theorem ends_throw {e : ε} : Ends P Q (throw e : Except ε α) ↔ P e := Iff.rfl

theorem ends_bind_iff : Ends P R (x >>= k) ↔ Ends P (fun a => Ends P R (k a)) x := by
  cases x <;> exact Iff.rfl

theorem Ends.imp {P' : ε → Prop} (hP : ∀ e, P e → P' e) (hQ : ∀ a, Q a → Q' a) (h : Ends P Q x) :
    Ends P' Q' x := by
  cases x with
  | ok a => exact hQ a h
  | error e => exact hP e h

theorem Ends.bind (hx : Ends P Q x) (hk : ∀ a, Q a → Ends P R (k a)) : Ends P R (x >>= k) :=
  ends_bind_iff.mpr (hx.imp (fun _ h => h) hk)

theorem ends_ite {c : Prop} [Decidable c] {y : Except ε α} (hx : Ends P Q x) (hy : Ends P Q y) :
    Ends P Q (if c then x else y) := by
  split
  · exact hx
  · exact hy

theorem Ends.of_eq_error {e : ε} (h : Ends P Q x) (hx : x = error e) : P e := by
  subst hx
  exact h

theorem Ends.of_eq_ok {a : α} (h : Ends P Q x) (hx : x = ok a) : Q a := by
  subst hx
  exact h

theorem ends_mapM {g : α → Except ε β} (h : ∀ a, Ends P (fun _ => True) (g a)) (as : List α) :
    Ends P (fun _ => True) (as.mapM g) := by
  induction as with
  | nil => trivial
  | cons a as ih =>
    rw [List.mapM_cons]
    exact (h a).bind fun _ _ => ih.bind fun _ _ => trivial

end Except
