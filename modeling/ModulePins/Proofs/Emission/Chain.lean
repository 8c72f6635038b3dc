import ModulePins.Proofs.Emission.Series
import ModulePins.Proofs.FileStore.Directories

/-!
# Chains of emissions

Emissions one after the other, as they are run. A chain is a series in which each emission is given
by the task itself and not by the way in which it ends, so that what else an emission does can be
said of a chain, too. Here it is which directories are made.

## Main definitions

* `Emission.Chain` — emissions as they are run

## Main results

* `Emission.Chain.series` — a chain is a series
* `Emission.Chain.grows` — a chain makes the directories of its outputs only
-/

namespace ModulePins

namespace Emission

open FileStore Cache ModulePins.Task

variable {force : Bool} {c c' c₁ : Cache} {S S' S₁ : Session} {o q dir : Path} {e : Emission}
  {d : String} {coordinate : Coordinate} {js : List Job} {r : Except Fault (List Emission)}
  {names : List String}

/-- Emissions one after the other. A chain ends at the first job without a document, and at the first
emission that fails. -/
inductive Chain (force : Bool) : List Job → Cache → Session → Except Fault (List Emission) → Cache →
    Session → Prop
  | done {c : Cache} {S : Session} : Chain force [] c S (.ok []) c S
  /-- There is no document. -/
  | stuck {j : Job} {js : List Job} {c : Cache} {S : Session} {labels : List String}
      (text : j.text = .error labels) :
      Chain force (j :: js) c S (.error (.inheritanceCycle labels)) c S
  | emitted {j : Job} {js : List Job} {c c₁ c' : Cache} {S S₁ S' : Session} {d : String}
      {e : Emission} {r : Except Fault (List Emission)} (text : j.text = .ok d)
      (run : exec (emit force d j.output j.coordinate) (c, S) = (.ok e, (c₁, S₁)))
      (rest : Chain force js c₁ S₁ r c' S') : Chain force (j :: js) c S (r.map (e :: ·)) c' S'
  | failed {j : Job} {js : List Job} {c c' : Cache} {S S' : Session} {d : String} {f : Fault}
      (text : j.text = .ok d)
      (run : exec (emit force d j.output j.coordinate) (c, S) = (.error f, (c', S'))) :
      Chain force (j :: js) c S (.error f) c' S'
  /-- Something is written to the log. -/
  | quiet {js : List Job} {c c' : Cache} {S S' : Session} {r : Except Fault (List Emission)}
      (log : List Record) (rest : Chain force js c { S with log } r c' S') : Chain force js c S r c' S'

/-- How an emission ends. -/
theorem ends_of_run {r : Except Fault Emission} (hhome : Homed S.files)
    (h : exec (emit force d o coordinate) (c, S) = (r, (c', S'))) :
    Ends force d o coordinate (resolved S.files o) c S r c' S'.files ∧ S'.now = S.now := by
  obtain ⟨r', c₁, files, log, hexec, hends⟩ :=
    exec_emit_ends (keyedBy_resolved hhome d o) force c coordinate
  rw [hexec] at h
  cases h
  exact ⟨hends, rfl⟩

/-- **A chain is a series.** -/
theorem Chain.series (h : Chain force js c S r c' S') (hhome : Homed S.files) :
    Series force js c S r c' S' := by
  induction h with
  | done => exact .done
  | stuck htext => exact .stuck htext
  | @emitted j js c c₁ c' S S₁ S' d e r htext hrun _ ih =>
    obtain ⟨hends, htime⟩ := ends_of_run hhome hrun
    exact .emitted htext (keyedBy_resolved hhome d j.output) hends htime
      (ih (hhome.mono (hends.touches hhome).toSameLinks))
  | failed htext hrun => exact .failed htext (ends_of_run hhome hrun).1
  | quiet log _ ih => exact (ih hhome).of_log log

/-- Without documents nothing happens. -/
theorem Chain.eq_of_nil (h : Chain force [] c S r c' S') : r = .ok [] ∧ c' = c ∧ S'.files = S.files := by
  generalize hjs : [] = js at h
  induction h with
  | done => exact ⟨rfl, rfl, rfl⟩
  | quiet log _ ih => exact ih hjs
  | stuck | emitted | failed => cases hjs

/-! ### Directories -/

/-- Noting a document changes no file. -/
theorem files_record (o : Path) (hash : String) (c : Cache) (S : Session) :
    (exec (record o hash) (c, S)).2.2.files = S.files := by
  cases hknown : known c S with
  | error f =>
    obtain ⟨log, hexec⟩ := exec_record_error o hknown hash
    rw [hexec]
  | ok s =>
    obtain ⟨c₁, log, hcurrent, -⟩ := exec_current_ok hknown
    rw [record, exec_bind_ok hcurrent]
    cases hreal : S.files.realPath o with
    | error e =>
      obtain ⟨f, -, hkey⟩ := exec_key_error (S := { S with log }) hreal c₁
      rw [exec_bind_error hkey]
    | ok q =>
      rw [exec_bind_ok (exec_key_ok (S := { S with log }) hreal c₁)]
      rfl

section Grows

variable (hdir : S.files.isDir? dir = .ok true)
  (hparent : o.parent = ⟨dir.anchor, dir.parts ++ names⟩) (hnames : ∀ name ∈ names, name ≠ "..")
include hdir hparent hnames

theorem grows_write (d : String) (coordinate : Coordinate) (c : Cache) :
    Grows names S.files (exec (write d o coordinate) (c, S)).2.2.files := by
  have hdirs : Grows names S.files (S.files.makeDirs o.parent).2 :=
    hparent ▸ grows_makeDirs hdir hnames
  rw [write, exec_bind, exec_session, Session.exec_makeDirs]
  generalize S.files.makeDirs o.parent = ended at hdirs ⊢
  obtain ⟨made, dirs⟩ := ended
  change Grows names S.files dirs at hdirs
  cases made with
  | error e => exact hdirs
  | ok u =>
    simp only [Except.mapError_ok]
    rw [exec_bind, exec_session]
    cases hwrite : dirs.writeBytes o d.toUTF8 with
    | error e =>
      rw [Session.exec_change_error (S := { S with files := dirs }) hwrite]
      exact hdirs
    | ok files =>
      rw [Session.exec_change_ok (S := { S with files := dirs }) hwrite]
      dsimp only
      have hrecord := files_record o (Digest.ofText d) c { S with files }
      have hwritten := hdirs.trans (grows_writeBytes hwrite)
      rw [exec_bind]
      generalize exec (record o (Digest.ofText d)) (c, { S with files }) = ended at hrecord ⊢
      obtain ⟨r, c', S'⟩ := ended
      change S'.files = files at hrecord
      cases r <;> exact hrecord.symm ▸ hwritten

theorem grows_emit {r : Except Fault Emission}
    (h : exec (emit force d o coordinate) (c, S) = (r, (c', S'))) : Grows names S.files S'.files := by
  have hwritten {c : Cache} (log : List Record) (h : exec (do
      write d o coordinate
      return outcome .written d o coordinate : Caching Emission) (c, { S with log }) =
        (r, (c', S'))) : Grows names S.files S'.files := by
    have hwrite := grows_write (S := { S with log }) hdir hparent hnames d coordinate c
    rw [exec_bind] at h
    generalize exec (write d o coordinate) (c, { S with log }) = ended at hwrite h
    obtain ⟨r₁, c₁, S₁⟩ := ended
    cases r₁ <;> cases h <;> exact hwrite
  rw [emit] at h
  dsimp only at h
  cases force with
  | true =>
    rw [if_pos rfl, exec_bind, exec_pure] at h
    exact hwritten S.log h
  | false =>
    obtain ⟨asked, c₁, log, hexec, -⟩ := exec_upToDate c S o (Digest.ofText d)
    rw [if_neg Bool.false_ne_true, exec_bind, hexec] at h
    cases asked with
    | error f =>
      cases h
      exact Grows.refl _ _
    | ok current =>
      cases current with
      | true =>
        cases h
        exact Grows.refl _ _
      | false =>
        exact hwritten _ h

end Grows

/-- **A chain makes the directories of its outputs only.** -/
theorem Chain.grows (h : Chain force js c S r c' S') (hhome : Homed S.files)
    (hnames : ∀ name ∈ names, name ≠ "..")
    (hdirs : ∀ j ∈ js, ∃ dir, S.files.isDir? dir = .ok true ∧
      j.output.parent = ⟨dir.anchor, dir.parts ++ names⟩) : Grows names S.files S'.files := by
  induction h with
  | done => exact Grows.refl _ _
  | stuck => exact Grows.refl _ _
  | @emitted j js c c₁ c' S S₁ S' d e r _ hrun _ ih =>
    obtain ⟨⟨dir, hdir, hparent⟩, hrest⟩ := List.forall_mem_cons.mp hdirs
    have hlinks := ((ends_of_run hhome hrun).1.touches hhome).toSameLinks
    refine (grows_emit hdir hparent hnames hrun).trans (ih (hhome.mono hlinks) fun k hk => ?_)
    obtain ⟨dir', hdir', hparent'⟩ := hrest k hk
    exact ⟨dir', isDir?_mono hlinks hdir', hparent'⟩
  | @failed j js c c' S S' d f _ hrun =>
    obtain ⟨⟨dir, hdir, hparent⟩, -⟩ := List.forall_mem_cons.mp hdirs
    exact grows_emit hdir hparent hnames hrun
  | quiet log _ ih => exact ih hhome hdirs

end Emission

end ModulePins
