import ModulePins.Proofs.Emission.Chain
import ModulePins.Proofs.Inheritance.Resolution
import ModulePins.Proofs.Workspace.Consistent
import ModulePins.Workspace.Publish

/-!
# What publishing does

Publishing is a chain of emissions, one for each module with a document, and then the cache is
saved. One memo serves all modules of a chain, and rendering a single module starts with an empty
one; both give the same text, so the chain emits what `render` shows.

## Main definitions

* `Workspace.published` — the modules with a document
* `Workspace.textOf`, `Workspace.jobOf` — what is emitted for a module

## Main results

* `Workspace.exec_render` — what rendering a module gives
* `Workspace.Consistent.exec_finalize` — publishing as a chain of emissions
-/

namespace ModulePins

namespace Workspace

open ModulePins.Task Emission

variable {w w' : Workspace} {S S' : Session} {p : Project} {memo : Memo} {force : Bool}

/-! ### Documents -/

/-- The modules that have a document, in the order of registration. -/
def published (w : Workspace) : List Project := w.projects.filter (·.descriptor.enabled)

/-- The position of a module, as links refer to it. -/
def positionOf (w : Workspace) (p : Project) : DescriptorId := (w.position? p.address).getD 0

/-- No inheritance cycle can be reached from the module. -/
def CycleFree (w : Workspace) (p : Project) : Prop := w.registry.CycleFree (w.positionOf p)

/-- The text of a module's document, or the labels of a cycle that it inherits. -/
def textOf (w : Workspace) (p : Project) : Except (List String) String :=
  (Resolver.resolve w.registry [] (w.positionOf p)).outcome.map fun pins =>
    (w.documentOf p pins).text false

/-- What is to be emitted for a module. -/
def jobOf (w : Workspace) (p : Project) : Job := ⟨w.outputOf p, p.coordinate, w.textOf p⟩

theorem textOf_of_cycleFree (h : w.CycleFree p) : ∃ text, w.textOf p = .ok text := by
  rw [textOf, Resolver.outcome_resolve_of_cycleFree (Memo.sound_nil _) h]
  exact ⟨_, rfl⟩

theorem isCycle_of_textOf {labels : List String} (h : w.textOf p = .error labels) :
    ∃ cycle, w.registry.IsCycle (w.positionOf p) cycle ∧ labels = cycle.map w.registry.label := by
  rw [textOf] at h
  cases hout : (Resolver.resolve w.registry [] (w.positionOf p)).outcome with
  | ok pins =>
    rw [hout] at h
    cases h
  | error labels' =>
    rw [hout] at h
    cases h
    exact Resolver.isCycle_of_outcome_resolve (Memo.sound_nil _) hout

theorem cycleFree_iff_textOf : w.CycleFree p ↔ ∃ text, w.textOf p = .ok text := by
  refine ⟨textOf_of_cycleFree, fun ⟨text, htext⟩ => ?_⟩
  by_contra hcycle
  rw [CycleFree, Registry.CycleFree] at hcycle
  push Not at hcycle
  obtain ⟨labels, hlabels⟩ := (Resolver.resolve_error_iff w.registry (w.positionOf p)).1.mpr hcycle
  rw [textOf, hlabels] at htext
  cases htext

/-! ### Rendering -/

/-- Resolving a module answers with its text, whatever the resolver was asked before. -/
theorem exec_documentAt (hmemo : Memo.Sound w.registry memo) (w' : Workspace) (S : Session) :
    ∃ memo' log, Memo.Sound w.registry memo' ∧
      ((∃ d, exec (w.documentAt memo (w.positionOf p) p) (w', S) =
          (.ok (d, memo'), (w', { S with log })) ∧ w.textOf p = .ok (d.text false)) ∨
        ∃ labels, exec (w.documentAt memo (w.positionOf p) p) (w', S) =
          (.error (.inheritanceCycle labels), (w', { S with log })) ∧
            w.textOf p = .error labels) := by
  have hout : (Resolver.resolve w.registry memo (w.positionOf p)).outcome =
      (Resolver.resolve w.registry [] (w.positionOf p)).outcome :=
    Resolver.outcome_resolve_eq hmemo (Memo.sound_nil _)
  refine ⟨_, S.log ++ (Resolver.resolve w.registry memo (w.positionOf p)).log,
    Resolver.sound_memo_resolve (i := w.positionOf p) hmemo, ?_⟩
  rw [textOf, ← hout, documentAt, exec_bind, exec_report]
  dsimp only
  cases (Resolver.resolve w.registry memo (w.positionOf p)).outcome with
  | ok pins => exact .inl ⟨_, rfl, rfl⟩
  | error labels => exact .inr ⟨labels, rfl, rfl⟩

/-- **Rendering** a module with a document gives its text, or fails with a cycle, and changes nothing
but the log. -/
theorem exec_render (hconsistent : w.Consistent) (hconfigured : w.configured = true)
    (hp : p ∈ w.published) (S : Session) :
    ∃ log, exec (render p.address false) (w, S) =
      ((w.textOf p).mapError Fault.inheritanceCycle, (w, { S with log })) := by
  obtain ⟨hmem, henabled⟩ := List.mem_filter.mp hp
  obtain ⟨memo, log, -, hdocument⟩ := exec_documentAt (p := p) (Memo.sound_nil w.registry) w S
  rw [render, exec_bind, exec_here]
  dsimp only
  rw [exec_bind, exec_ofExcept, requireConfigured, if_pos hconfigured]
  dsimp only
  rw [exec_bind, exec_ofExcept, hconsistent.get_eq hmem]
  dsimp only
  rw [if_neg (by simpa using henabled)]
  rcases hdocument with ⟨d, hexec, htext⟩ | ⟨labels, hexec, htext⟩
  · rw [htext]
    exact ⟨log, exec_bind_ok hexec _⟩
  · rw [htext]
    exact ⟨log, exec_bind_error hexec _⟩

/-! ### Emitting -/

@[simp] theorem exec_caching {α : Type} (t : Caching α) (w : Workspace) (S : Session) :
    exec (caching t) (w, S) =
      ((exec t (w.cache, S)).1,
        ({ w with cache := (exec t (w.cache, S)).2.1 }, (exec t (w.cache, S)).2.2)) := rfl

/-- One module with a document: its text is emitted, and then the others. -/
theorem exec_emitFrom_cons {i : ℕ} {text : String} (henabled : p.descriptor.enabled = true)
    (hposition : w.positionOf p = i) (hmemo : Memo.Sound w.registry memo)
    (htext : w.textOf p = .ok text) (force : Bool) (ps : List Project) (S : Session) :
    ∃ memo' log, Memo.Sound w.registry memo' ∧ exec (emitFrom force memo i (p :: ps)) (w, S) =
      exec (do
        let e ← caching (Emission.emit force text (w.outputOf p) p.coordinate)
        return e :: (← emitFrom force memo' (i + 1) ps)) (w, { S with log }) := by
  rw [emitFrom, if_pos henabled, exec_bind, exec_here]
  dsimp only
  obtain ⟨memo', log, hmemo', ⟨d, hexec, hd⟩ | ⟨labels, -, hlabels⟩⟩ :=
    exec_documentAt (p := p) hmemo w S
  · rw [htext] at hd
    cases hd
    rw [hposition] at hexec
    exact ⟨memo', log, hmemo', exec_bind_ok hexec _⟩
  · rw [htext] at hlabels
    cases hlabels

/-- A module that inherits a cycle ends the emissions. -/
theorem exec_emitFrom_stuck {i : ℕ} {labels : List String} (henabled : p.descriptor.enabled = true)
    (hposition : w.positionOf p = i) (hmemo : Memo.Sound w.registry memo)
    (hlabels : w.textOf p = .error labels) (force : Bool) (ps : List Project) (S : Session) :
    ∃ log, exec (emitFrom force memo i (p :: ps)) (w, S) =
      (.error (.inheritanceCycle labels), (w, { S with log })) := by
  rw [emitFrom, if_pos henabled, exec_bind, exec_here]
  dsimp only
  obtain ⟨memo', log, -, ⟨d, -, hd⟩ | ⟨labels', hexec, hlabels'⟩⟩ :=
    exec_documentAt (p := p) hmemo w S
  · rw [hlabels] at hd
    cases hd
  · rw [hlabels] at hlabels'
    cases hlabels'
    rw [hposition] at hexec
    exact ⟨log, exec_bind_error hexec _⟩

/-- **Emitting is a chain.** The memo may be any that the resolver can have. -/
theorem exec_emitFrom (force : Bool) (hmemo : Memo.Sound w.registry memo) (i : ℕ)
    (ps : List Project) (hps : ∀ k p, ps[k]? = some p → w.position? p.address = some (i + k)) :
    ∃ r c S', exec (emitFrom force memo i ps) (w, S) = (r, ({ w with cache := c }, S')) ∧
      Chain force ((ps.filter (·.descriptor.enabled)).map w.jobOf) w.cache S r c S' := by
  induction ps generalizing w S memo i with
  | nil => exact ⟨_, _, _, rfl, .done⟩
  | cons p ps ih =>
    have hposition : w.positionOf p = i := by rw [positionOf, hps 0 p rfl]; rfl
    have hrest : ∀ k q, ps[k]? = some q → w.position? q.address = some (i + 1 + k) := by
      intro k q hq
      rw [hps (k + 1) q (by simpa using hq)]
      congr 1
      omega
    by_cases henabled : p.descriptor.enabled = true
    · rw [List.filter_cons_of_pos (by exact henabled), List.map_cons]
      cases htext : w.textOf p with
      | error labels =>
        obtain ⟨log, hexec⟩ := exec_emitFrom_stuck henabled hposition hmemo htext force ps S
        exact ⟨_, w.cache, _, hexec, .quiet log (.stuck (j := w.jobOf p) htext)⟩
      | ok text =>
        obtain ⟨memo', log, hmemo', hexec⟩ :=
          exec_emitFrom_cons henabled hposition hmemo htext force ps S
        rcases hrun : exec (emit force text (w.outputOf p) p.coordinate) (w.cache, { S with log })
          with ⟨r, c, S₁⟩
        have hcaching : exec (caching (emit force text (w.outputOf p) p.coordinate))
            (w, { S with log }) = (r, ({ w with cache := c }, S₁)) := by
          rw [exec_caching, hrun]
        rw [hexec]
        cases r with
        | error f =>
          rw [exec_bind_error hcaching]
          exact ⟨_, c, _, rfl, .quiet log (.failed (j := w.jobOf p) htext hrun)⟩
        | ok e =>
          rw [exec_bind_ok hcaching]
          obtain ⟨r, c', S', hexec', hchain⟩ := ih (w := { w with cache := c }) (S := S₁) hmemo'
            (i + 1) hrest
          refine ⟨r.map (e :: ·), c', S', ?_, .quiet log ?_⟩
          · rw [exec_bind, hexec']
            cases r <;> rfl
          · exact .emitted (j := w.jobOf p) htext hrun hchain
    · rw [emitFrom, if_neg henabled, exec_bind, exec_report,
        List.filter_cons_of_neg (by exact henabled)]
      dsimp only
      obtain ⟨r, c, S', hexec, hchain⟩ := ih (S := { S with log := S.log ++ _ }) hmemo (i + 1) hrest
      exact ⟨r, c, S', hexec, .quiet _ hchain⟩

/-! ### Publishing -/

/-- What is to be emitted. -/
def jobs (w : Workspace) : List Job := w.published.map w.jobOf

theorem exec_finalize_of_configured (hconfigured : w.configured = true) (force : Bool) (S : Session) :
    exec (finalize force) (w, S) =
      exec (ensuring (emitFrom force [] 0 w.projects) (caching Cache.save)) (w, S) := by
  rw [finalize, exec_bind, exec_here]
  dsimp only
  rw [exec_bind, exec_ofExcept, requireConfigured, if_pos hconfigured]

theorem exec_finalize_of_unconfigured (hconfigured : w.configured = false) (force : Bool)
    (S : Session) : ∃ f, exec (finalize force) (w, S) = (.error f, (w, S)) := by
  rw [finalize, exec_bind, exec_here]
  dsimp only
  rw [exec_bind, exec_ofExcept, requireConfigured, if_neg (by simp [hconfigured])]
  exact ⟨_, rfl⟩

/-- **Publishing** is a chain of emissions, and then the cache is saved. -/
theorem Consistent.exec_finalize (hconsistent : w.Consistent) (hconfigured : w.configured = true)
    (force : Bool) (S : Session) :
    ∃ r c S₁, Chain force w.jobs w.cache S r c S₁ ∧ exec (finalize force) (w, S) =
      ((exec Cache.save (c, S₁)).1.bind fun _ => r,
        ({ w with cache := (exec Cache.save (c, S₁)).2.1 }, (exec Cache.save (c, S₁)).2.2)) := by
  have hpositions : ∀ k p, w.projects[k]? = some p → w.position? p.address = some (0 + k) :=
    fun k p hp => by rw [hconsistent.position?_eq hp, Nat.zero_add]
  obtain ⟨r, c, S₁, hexec, hchain⟩ :=
    exec_emitFrom force (Memo.sound_nil _) 0 w.projects hpositions
  refine ⟨r, c, S₁, hchain, ?_⟩
  rw [exec_finalize_of_configured hconfigured, exec_ensuring, hexec, exec_caching]

/-- Publishing that succeeds is a chain that succeeds, and the cache is saved. -/
theorem Consistent.chain_of_finalize {es : List Emission} (hconsistent : w.Consistent)
    (hconfigured : w.configured = true)
    (hdone : exec (finalize force) (w, S) = (.ok es, (w', S'))) :
    ∃ c c' S₁, Chain force w.jobs w.cache S (.ok es) c S₁ ∧
      exec Cache.save (c, S₁) = (.ok (), (c', S')) := by
  obtain ⟨r, c, S₁, hchain, hexec⟩ := hconsistent.exec_finalize hconfigured force S
  rw [hdone] at hexec
  rcases hsave : exec Cache.save (c, S₁) with ⟨saved, c', S₂⟩
  rw [hsave] at hexec
  cases saved with
  | error f => cases hexec
  | ok u =>
    cases hexec
    exact ⟨c, c', S₁, hchain, hsave⟩

/-- Publishing keeps a workspace consistent, however it ends. -/
theorem Consistent.finalize {r : Except Fault (List Emission)} (h : w.Consistent)
    (hhome : FileStore.Homed S.files)
    (hdone : exec (Workspace.finalize force) (w, S) = (r, (w', S'))) : w'.Consistent := by
  cases hconfigured : w.configured with
  | true =>
    obtain ⟨r', c, S₁, hchain, hexec⟩ := h.exec_finalize hconfigured force S
    have hseries := hchain.series hhome
    rw [hdone] at hexec
    cases hexec
    refine ⟨h.nodup, h.normal, ?_⟩
    change ∀ s ∈ (exec Cache.save (c, S₁)).2.1.state, s.Sound
    rw [(Cache.save_keeps c S₁).2]
    exact (hseries.frame hhome).2.2 h.sound
  | false =>
    obtain ⟨f, hexec⟩ := exec_finalize_of_unconfigured hconfigured force S
    rw [hdone] at hexec
    cases hexec
    exact h

/-! ### Workspaces -/

/-- A workspace that has been made, and then been worked on in whatever order. -/
inductive Reached : Workspace → Prop
  | created {directory : Path} {settings : Option Settings} {inMemory : Bool} {S S' : Session}
      {w : Workspace} (h : exec (create directory settings inMemory) S = (.ok w, S')) : Reached w
  | registered {w : Workspace} (before : Reached w) (address : String) (directory : Option Path) :
      Reached (w.register address directory).1
  | configured {w w' : Workspace} {S S' : Session} {r : Except Fault Unit} (before : Reached w)
      (h : exec configure (w, S) = (r, (w', S'))) : Reached w'
  | finalized {w w' : Workspace} {S S' : Session} {force : Bool} {r : Except Fault (List Emission)}
      (before : Reached w) (homed : FileStore.Homed S.files)
      (h : exec (Workspace.finalize force) (w, S) = (r, (w', S'))) : Reached w'

theorem Reached.consistent (h : w.Reached) : w.Consistent := by
  induction h with
  | created h => exact consistent_create h
  | registered _ address directory ih => exact ih.register address directory
  | configured _ h ih => exact ih.configure h
  | finalized _ hhome h ih => exact ih.finalize hhome h

end Workspace

end ModulePins
