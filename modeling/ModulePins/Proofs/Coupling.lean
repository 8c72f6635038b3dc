import ModulePins.Proofs.Task

/-!
# Two runs side by side

What a task answers may be the same for two states that differ in something it does not look at.
`Task.Coupled` says so of two tasks, which need not be the same: started in related states they both
succeed with related values, or both fail with the same fault, and leave related states. There is a
rule for each way to build a task, so two tasks that are built alike are coupled if their parts are.

## Main definitions

* `Task.SameEnd` — two ends with related values, or with the same fault
* `Task.Coupled` — two tasks that related states cannot tell apart

## Main results

* `Task.Coupled.bind`, `Task.Coupled.tryCatch`, `Task.coupled_forM` — tasks from their parts
* `Task.Coupled.session` — tasks on the session, beside another state
-/

namespace ModulePins

namespace Task

variable {σ τ α β γ δ : Type} {R : σ → σ → Prop} {Q : α → β → Prop} {P : γ → δ → Prop}
  {t : Task σ α} {t' : Task σ β}

/-- Both succeed with related values, or both fail with the same fault. -/
inductive SameEnd (Q : α → β → Prop) : Except Fault α → Except Fault β → Prop
  | ok {a : α} {b : β} (h : Q a b) : SameEnd Q (.ok a) (.ok b)
  | error (f : Fault) : SameEnd Q (.error f) (.error f)

theorem SameEnd.refl (r : Except Fault α) : SameEnd Eq r r := by
  cases r with
  | ok a => exact .ok rfl
  | error f => exact .error f

theorem SameEnd.mono {r : Except Fault α} {r' : Except Fault β} (h : SameEnd Q r r')
    {Q' : α → β → Prop} (hQ : ∀ a b, Q a b → Q' a b) : SameEnd Q' r r' := by
  cases h with
  | ok h => exact .ok (hQ _ _ h)
  | error f => exact .error f

theorem SameEnd.map {r : Except Fault α} {r' : Except Fault β} (h : SameEnd Q r r') {g : α → γ}
    {g' : β → δ} (hg : ∀ a b, Q a b → P (g a) (g' b)) : SameEnd P (r.map g) (r'.map g') := by
  cases h with
  | ok h => exact .ok (hg _ _ h)
  | error f => exact .error f

/-- Started in related states, the tasks end in the same way and leave related states. -/
def Coupled (R : σ → σ → Prop) (Q : α → β → Prop) (t : Task σ α) (t' : Task σ β) : Prop :=
  ∀ s s', R s s' → SameEnd Q (exec t s).1 (exec t' s').1 ∧ R (exec t s).2 (exec t' s').2

theorem coupled_pure {a : α} {b : β} (h : Q a b) : Coupled R Q (pure a) (pure b) :=
  fun _ _ hs => ⟨.ok h, hs⟩

theorem coupled_throw (f : Fault) : Coupled R Q (throw f) (throw f) :=
  fun _ _ hs => ⟨.error f, hs⟩

theorem coupled_ofExcept {r : Except Fault α} {r' : Except Fault β} (h : SameEnd Q r r') :
    Coupled R Q (ofExcept r) (ofExcept r') := by
  intro s s' hs
  rw [exec_ofExcept, exec_ofExcept]
  exact ⟨h, hs⟩

/-- One task, and then another one that depends on the value. -/
theorem Coupled.bind {k : α → Task σ γ} {k' : β → Task σ δ} (ht : Coupled R Q t t')
    (hk : ∀ a b, Q a b → Coupled R P (k a) (k' b)) : Coupled R P (t >>= k) (t' >>= k') := by
  intro s s' hs
  obtain ⟨hend, hstate⟩ := ht s s' hs
  rw [exec_bind, exec_bind]
  rcases hexec : exec t s with ⟨r, s₁⟩
  rcases hexec' : exec t' s' with ⟨r', s₁'⟩
  rw [hexec, hexec'] at hend hstate
  cases hend with
  | ok h => exact hk _ _ h s₁ s₁' hstate
  | error f => exact ⟨.error f, hstate⟩

theorem Coupled.tryCatch {handle : Fault → Task σ α} {handle' : Fault → Task σ β}
    (ht : Coupled R Q t t') (hh : ∀ f, Coupled R Q (handle f) (handle' f)) :
    Coupled R Q (tryCatch t handle) (tryCatch t' handle') := by
  intro s s' hs
  obtain ⟨hend, hstate⟩ := ht s s' hs
  rw [exec_tryCatch, exec_tryCatch]
  rcases hexec : exec t s with ⟨r, s₁⟩
  rcases hexec' : exec t' s' with ⟨r', s₁'⟩
  rw [hexec, hexec'] at hend hstate
  cases hend with
  | ok h => exact ⟨.ok h, hstate⟩
  | error f => exact hh f s₁ s₁' hstate

theorem Coupled.discard (h : Coupled R Q t t') : Coupled R Eq (discard t) (discard t') := by
  intro s s' hs
  obtain ⟨hend, hstate⟩ := h s s' hs
  change SameEnd Eq (exec ((fun _ => ()) <$> t) s).1 (exec ((fun _ => ()) <$> t') s').1 ∧
    R (exec ((fun _ => ()) <$> t) s).2 (exec ((fun _ => ()) <$> t') s').2
  rw [exec_map, exec_map]
  exact ⟨hend.map fun _ _ _ => rfl, hstate⟩

/-- Steps in a row. -/
theorem coupled_forM (xs : List γ) {f g : γ → Task σ Unit} (h : ∀ x, Coupled R Eq (f x) (g x)) :
    Coupled R Eq (xs.forM f) (xs.forM g) := by
  induction xs with
  | nil => exact coupled_pure rfl
  | cons x xs ih => exact (h x).bind fun _ _ _ => ih

/-! ### Beside another state -/

/-- Both parts of the states are related. -/
def Both (P : τ → τ → Prop) (R : σ → σ → Prop) (s s' : τ × σ) : Prop := P s.1 s'.1 ∧ R s.2 s'.2

variable {T : τ → τ → Prop} {R' : Session → Session → Prop}

theorem Coupled.session {u : Task Session α} {u' : Task Session β} (h : Coupled R' Q u u') :
    Coupled (Both T R') Q (session u) (session u') := by
  rintro ⟨x, S⟩ ⟨x', S'⟩ ⟨hx, hS⟩
  rw [exec_session, exec_session]
  exact ⟨(h S S' hS).1, hx, (h S S' hS).2⟩

theorem coupled_part : Coupled (Both T R') T part part := by
  rintro ⟨x, S⟩ ⟨x', S'⟩ hs
  exact ⟨.ok hs.1, hs⟩

theorem coupled_setPart {x x' : τ} (h : T x x') :
    Coupled (Both T R') Eq (setPart x) (setPart x') := by
  rintro ⟨y, S⟩ ⟨y', S'⟩ hs
  exact ⟨.ok rfl, h, hs.2⟩

end Task

end ModulePins
