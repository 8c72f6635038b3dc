import Mathlib.Data.Nat.Notation
import Mathlib.Order.Defs.Unbundled
import ModulePins.Proofs.Except
import ModulePins.Task

/-!
# What a task does

`Task.exec` is the result of a task and the state that it leaves. There is one equation for each way
to build a task, so that a task written with `do` is followed step by step: a step that succeeds
hands its value and its state on, and a step that fails is the end.

## Main results

* `Task.exec_bind_ok`, `Task.exec_bind_error` — one step
* `Task.exec_session` — a step on the session alone
* `Session.exec_ask`, `Session.exec_change_ok`, `Session.exec_makeDirs` — the file store

What a task cannot do is said by a relation between the states before and after it, `Task.Within`.
If the relation is reflexive and transitive, a task is within it as soon as its steps are.
-/

namespace ModulePins

namespace Task

variable {σ α β : Type} {s s' : σ} {a : α} {f : Fault}

/-- The result of a task, and the state that it leaves. -/
def exec (t : Task σ α) (s : σ) : Except Fault α × σ := (t.run).run s

@[simp] theorem exec_pure (a : α) (s : σ) : exec (pure a) s = (.ok a, s) := rfl

@[simp] theorem exec_throw (f : Fault) (s : σ) : exec (throw f : Task σ α) s = (.error f, s) := rfl

@[simp] theorem exec_get (s : σ) : exec (get : Task σ σ) s = (.ok s, s) := rfl

@[simp] theorem exec_modify (g : σ → σ) (s : σ) : exec (modify g : Task σ Unit) s = (.ok (), g s) :=
  rfl

theorem exec_bind (t : Task σ α) (k : α → Task σ β) (s : σ) :
    exec (t >>= k) s =
      match exec t s with
      | (.ok a, s') => exec (k a) s'
      | (.error f, s') => (.error f, s') := by
  change (t.run >>= ExceptT.bindCont k).run s = _
  rw [exec]
  rcases h : (t.run).run s with ⟨r, s'⟩
  cases r <;> simp [StateT.run_bind, h, ExceptT.bindCont] <;> rfl

theorem exec_bind_ok {t : Task σ α} (h : exec t s = (.ok a, s')) (k : α → Task σ β) :
    exec (t >>= k) s = exec (k a) s' := by
  rw [exec_bind, h]

theorem exec_bind_error {t : Task σ α} (h : exec t s = (.error f, s')) (k : α → Task σ β) :
    exec (t >>= k) s = (.error f, s') := by
  rw [exec_bind, h]

theorem exec_map (g : α → β) (t : Task σ α) (s : σ) :
    exec (g <$> t) s = ((exec t s).1.map g, (exec t s).2) := by
  rw [exec, ExceptT.run_map, StateT.run_map]
  rfl

@[simp] theorem exec_ofExcept (r : Except Fault α) (s : σ) : exec (ofExcept r) s = (r, s) := by
  cases r <;> rfl

theorem exec_tryCatch (t : Task σ α) (handle : Fault → Task σ α) (s : σ) :
    exec (tryCatch t handle) s =
      match exec t s with
      | (.ok a, s') => (.ok a, s')
      | (.error f, s') => exec (handle f) s' := by
  change (ExceptT.tryCatch t handle).run.run s = _
  rw [exec, ExceptT.tryCatch, ExceptT.run_mk, StateT.run_bind]
  rcases h : (t.run).run s with ⟨r, s'⟩
  change (do let p ← (t.run).run s; _ : Id (Except Fault α × σ)) = _
  rw [h]
  cases r <;> rfl

theorem exec_ensuring (t : Task σ α) (after : Task σ Unit) (s : σ) :
    exec (ensuring t after) s =
      ((exec after (exec t s).2).1.bind fun _ => (exec t s).1, (exec after (exec t s).2).2) := by
  change (match exec after (exec t s).2 with
    | (.ok _, s') => ((exec t s).1, s')
    | (.error f, s') => (.error f, s')) = _
  rcases exec after (exec t s).2 with ⟨_ | _, s'⟩ <;> rfl

@[simp] theorem exec_session (t : Task Session α) (x : σ) (S : Session) :
    exec (session t) (x, S) = ((exec t S).1, (x, (exec t S).2)) := rfl

@[simp] theorem exec_part (x : σ) (S : Session) : exec part (x, S) = (.ok x, (x, S)) := rfl

@[simp] theorem exec_setPart (x y : σ) (S : Session) : exec (setPart y) (x, S) = (.ok (), (y, S)) :=
  rfl

@[simp] theorem exec_report (rs : List Record) (x : σ) (S : Session) :
    exec (report rs) (x, S) = (.ok (), (x, { S with log := S.log ++ rs })) := rfl

/-! ### Frames -/

/-- However a task ends, it leaves a state in this relation to the one before. -/
def Within (R : σ → σ → Prop) (t : Task σ α) : Prop := ∀ s, R s (exec t s).2

section Frames

variable {R : σ → σ → Prop} [Std.Refl R] [IsTrans σ R] {t : Task σ α} {k : α → Task σ β}

omit [IsTrans σ R] in
theorem within_pure (a : α) : Within R (pure a) := refl_of R

omit [IsTrans σ R] in
theorem within_throw (f : Fault) : Within R (throw f : Task σ α) := refl_of R

omit [IsTrans σ R] in
theorem within_ofExcept (r : Except Fault α) : Within R (ofExcept r) := fun s => by
  rw [exec_ofExcept]
  exact refl_of R s

omit [Std.Refl R] in
theorem Within.bind (ht : Within R t) (hk : ∀ a, Within R (k a)) : Within R (t >>= k) := fun s => by
  have hfirst := ht s
  rw [exec_bind]
  rcases hexec : exec t s with ⟨r, s'⟩
  rw [hexec] at hfirst
  cases r with
  | error f => exact hfirst
  | ok a => exact trans_of R hfirst (hk a s')

omit [Std.Refl R] in
theorem Within.tryCatch {handle : Fault → Task σ α} (ht : Within R t)
    (hh : ∀ f, Within R (handle f)) : Within R (tryCatch t handle) := fun s => by
  have hfirst := ht s
  rw [exec_tryCatch]
  rcases hexec : exec t s with ⟨r, s'⟩
  rw [hexec] at hfirst
  cases r with
  | error f => exact trans_of R hfirst (hh f s')
  | ok a => exact hfirst

omit [Std.Refl R] [IsTrans σ R] in
theorem Within.discard (ht : Within R t) : Within R (discard t) := fun s => by
  change R s (exec ((fun _ => ()) <$> t) s).2
  rw [exec_map]
  exact ht s

theorem within_forM (xs : List β) {f : β → Task σ Unit} (h : ∀ x, Within R (f x)) :
    Within R (xs.forM f) := by
  induction xs with
  | nil => exact within_pure ()
  | cons x xs ih => exact (h x).bind fun _ => ih

/-- A task that first gives up if something is wrong. -/
theorem within_unless {c : Prop} [Decidable c] {f : Fault} {g : Unit → Task σ α}
    (hg : ∀ u, Within R (g u)) : Within R (if c then throw f >>= g else g ()) := by
  split
  · exact (within_throw f).bind hg
  · exact hg ()

end Frames

/-- A task on the session leaves the rest of the state alone. -/
theorem Within.session {R : Session → Session → Prop} {R' : σ × Session → σ × Session → Prop}
    {t : Task Session α} (ht : Within R t) (h : ∀ x S S', R S S' → R' (x, S) (x, S')) :
    Within R' (session t) := fun ⟨x, S⟩ => by
  rw [exec_session]
  exact h x S _ (ht S)

end Task

open ModulePins.Task

/-- A file operation failed, or a path led round in a circle. -/
def Fault.OfFiles (f : Fault) : Prop := (∃ e, f = .file e) ∨ ∃ p, f = .linkLoop p

namespace Session

variable {α : Type} {S : Session}

@[simp] theorem exec_report (rs : List Record) (S : Session) :
    exec (report rs) S = (.ok (), { S with log := S.log ++ rs }) := rfl

@[simp] theorem exec_ask (query : FileStore → Except FileError α) (S : Session) :
    exec (ask query) S = ((query S.files).mapError Fault.file, S) := by
  rw [ask, exec_bind]
  simp

theorem exec_change_ok {act : FileStore → Except FileError FileStore} {files : FileStore}
    (h : act S.files = .ok files) : exec (change act) S = (.ok (), { S with files }) := by
  rw [change, exec_bind, exec_ask, h]
  rfl

theorem exec_change_error {act : FileStore → Except FileError FileStore} {e : FileError}
    (h : act S.files = .error e) : exec (change act) S = (.error (.file e), S) := by
  rw [change, exec_bind, exec_ask, h]
  rfl

@[simp] theorem exec_makeDirs (p : Path) (S : Session) :
    exec (makeDirs p) S =
      ((S.files.makeDirs p).1.mapError Fault.file, { S with files := (S.files.makeDirs p).2 }) := by
  rw [makeDirs, exec_bind, exec_get]
  dsimp only
  rw [exec_bind, exec_modify]
  simp

theorem exec_realPath_ok {p q : Path} (h : S.files.realPath p = .ok q) :
    exec (realPath p) S = (.ok q, S) := by
  rw [realPath, exec_bind, exec_get]
  simp [h]

theorem exec_realPath_error {p : Path} {e : FileError} (h : S.files.realPath p = .error e) :
    ∃ f, f.OfFiles ∧ exec (realPath p) S = (.error f, S) := by
  rw [realPath, exec_bind, exec_get]
  simp only [h]
  split
  · exact ⟨_, .inr ⟨_, rfl⟩, rfl⟩
  · exact ⟨_, .inl ⟨_, rfl⟩, rfl⟩

/-- Reading a text changes nothing. -/
theorem exec_readText (p : Path) (S : Session) :
    exec (readText p) S =
      (match S.files.readBytes p with
        | .error e => .error (.file e)
        | .ok bytes =>
          match String.fromUTF8? bytes with
          | none => .error .notText
          | some text => .ok (Text.unifyNewlines text.toList), S) := by
  rw [readText, exec_bind, exec_ask]
  cases S.files.readBytes p with
  | error e => rfl
  | ok bytes =>
    simp only [Except.mapError_ok]
    cases String.fromUTF8? bytes <;> rfl

end Session

/-- The bytes of a text are read as that text. -/
theorem Text.fromUTF8?_toUTF8 (text : String) : String.fromUTF8? text.toUTF8 = some text :=
  dif_pos text.isValidUTF8

end ModulePins
