import Mathlib.Data.List.Induction
import ModulePins.Proofs.Inheritance.Resolution

/-!
# Repeated declarations are reported once

A module that declares an id twice among its own outputs, or among its own inputs, is warned about
when its pins are worked out. This happens behind those of its references, and the memo is written
in the same moment, so the modules that are in the memo are the ones that have been reported: each of
them once, however many paths or calls lead to it. A visit that fails at a cycle has reported the
modules that it finished on the way and nothing of those it had begun.

The invariant is about the memo alone (`Memo.Settled`): it names no module twice, and with a module
it names those the module refers to. A visit of one module and a visit of a list of references keep
it in the same way, so both are described by `Leaves`.

## Main definitions

* `Resolver.report` — the warnings about a module, from its declarations
* `Memo.modules`, `Memo.Settled` — the modules that have been finished, in their order
* `Resolver.session` — the calls of one resolver

## Main results

* `Resolver.warnings_ownLog` — finishing a module reports it
* `Resolver.leaves_visit` — what a visit leaves, whatever its outcome
* `Resolver.warnings_session` — the warnings of all calls of one resolver
-/

namespace ModulePins

open Registry

namespace Resolver

/-! ### The report of a module -/

/-- The ids of the pins that stand behind another pin with the same id, in the order of the pins. -/
def repeatedIds (pins : List Pin) : List String :=
  (pins.zipIdx.filter fun p => p.1.id ∈ (pins.take p.2).map Pin.id).map fun p => p.1.id

/-- The warning that a module declares an id more than once. -/
def repeatedWarning (owner : String) (direction : Direction) (id : String) : Record :=
  note .warning (owner ++ ": " ++ direction.word ++ " PIN " ++ Text.quoted id ++
    " declared more than once, keeping the last declaration")

/-- The report of a module: a warning for each of its own outputs, and then for each of its own
inputs, that stands behind another one with its id. -/
def report (r : Registry) (i : DescriptorId) : List Record :=
  (repeatedIds (r.get i).outputs).map (repeatedWarning (r.label i) .output) ++
    (repeatedIds (r.get i).inputs).map (repeatedWarning (r.label i) .input)

theorem repeatedIds_concat (ps : List Pin) (p : Pin) :
    repeatedIds (ps ++ [p]) =
      repeatedIds ps ++ if p.id ∈ ps.map Pin.id then [p.id] else [] := by
  have hbefore : ∀ q ∈ ps.zipIdx, (ps ++ [p]).take q.2 = ps.take q.2 := by
    intro q hq
    exact List.take_append_of_le_length (List.snd_lt_of_mem_zipIdx hq).le
  rw [repeatedIds, List.zipIdx_append, List.filter_append, List.map_append, repeatedIds]
  congr 1
  · refine congrArg _ (List.filter_congr fun q hq => ?_)
    rw [hbefore q hq]
  · by_cases h : p.id ∈ ps.map Pin.id <;> simp [h]

theorem duplicateLog_concat (owner : String) (direction : Direction) (seen : List String)
    (ps : List Pin) (p : Pin) :
    duplicateLog owner direction seen (ps ++ [p]) = duplicateLog owner direction seen ps ++
      if p.id ∈ seen ∨ p.id ∈ ps.map Pin.id then [repeatedWarning owner direction p.id] else [] := by
  induction ps generalizing seen with
  | nil => simp [duplicateLog, repeatedWarning]
  | cons q ps ih =>
    have hseen : (p.id ∈ q.id :: seen ∨ p.id ∈ ps.map Pin.id) ↔
        (p.id ∈ seen ∨ p.id ∈ (q :: ps).map Pin.id) := by
      rw [List.mem_cons, List.map_cons, List.mem_cons]
      tauto
    rw [List.cons_append, duplicateLog, duplicateLog, ih, List.append_assoc]
    simp only [hseen]

theorem duplicateLog_eq (owner : String) (direction : Direction) (ps : List Pin) :
    duplicateLog owner direction [] ps =
      (repeatedIds ps).map (repeatedWarning owner direction) := by
  induction ps using List.reverseRecOn with
  | nil => rfl
  | append_singleton ps p ih =>
    rw [duplicateLog_concat, repeatedIds_concat, List.map_append, ih]
    by_cases h : p.id ∈ ps.map Pin.id <;> simp [h]

theorem duplicates_eq_report (r : Registry) (i : DescriptorId) : duplicates r i = report r i := by
  rw [duplicates, duplicateLog_eq, duplicateLog_eq, report]

/-! ### Warnings of a log -/

/-- The warnings among the records of a log. -/
def warnings (log : List Record) : List Record := log.filter fun record => record.level = .warning

@[simp] theorem warnings_append (log log' : List Record) :
    warnings (log ++ log') = warnings log ++ warnings log' := List.filter_append ..

@[simp] theorem warnings_mergeLog (source : String) (target pins : List Pin) :
    warnings (mergeLog source target pins) = [] := by
  induction pins generalizing target with
  | nil => rfl
  | cons p ps ih =>
    rw [mergeLog, warnings_append, ih, List.append_nil]
    split <;> rfl

theorem warnings_report (r : Registry) (i : DescriptorId) :
    warnings (report r i) = report r i := by
  refine List.filter_eq_self.mpr fun record hrecord => ?_
  rcases List.mem_append.mp hrecord with h | h <;>
    obtain ⟨id, -, rfl⟩ := List.mem_map.mp h <;> rfl

/-- **Finishing a module reports it**, and warns of nothing else. -/
theorem warnings_ownLog (r : Registry) (i : DescriptorId) (e : Effective) :
    warnings (ownLog r i e) = report r i := by
  have hsummary (b : Bool) (message : String) :
      warnings (if b then [] else [note .debug message]) = [] := by
    cases b <;> rfl
  simp only [ownLog, duplicates_eq_report, warnings_append, warnings_report, warnings_mergeLog,
    hsummary, List.append_nil]

end Resolver

/-! ### Modules that are finished -/

namespace Memo

variable {r : Registry} {i j : DescriptorId} {memo : Memo}

/-- The modules that have been finished, in the order in which they were. -/
def modules (memo : Memo) : List DescriptorId := (memo.map Prod.fst).reverse

theorem modules_cons (i : DescriptorId) (e : Effective) (memo : Memo) :
    modules ((i, e) :: memo) = memo.modules ++ [i] := by
  rw [modules, List.map_cons, List.reverse_cons, modules]

theorem mem_modules_iff : i ∈ memo.modules ↔ ∃ e, memo.lookup i = some e := by
  rw [modules, List.mem_reverse, ← Option.isSome_iff_exists, ← Option.ne_none_iff_isSome, ne_eq,
    List.lookup_eq_none_iff]
  simp

/-- Only modules that are free of cycles are ever finished. -/
theorem Sound.cycleFree (h : memo.Sound r) (hi : i ∈ memo.modules) : r.CycleFree i := by
  obtain ⟨e, he⟩ := mem_modules_iff.mp hi
  exact (h i e he).1

/-- No module is finished twice, and none before those it refers to. -/
structure Settled (r : Registry) (memo : Memo) : Prop where
  nodup : memo.modules.Nodup
  closed : ∀ i ∈ memo.modules, ∀ j < r.length, r.Refers i j → j ∈ memo.modules

theorem settled_nil (r : Registry) : Settled r [] := ⟨List.nodup_nil, fun _ h => by cases h⟩

theorem Settled.cons {e : Effective} (h : memo.Settled r) (hi : i ∉ memo.modules)
    (hparents : ∀ j < r.length, r.Refers i j → j ∈ memo.modules) :
    Settled r ((i, e) :: memo) := by
  refine ⟨?_, fun k hk j hj hkj => ?_⟩
  · rw [modules_cons, List.nodup_append]
    refine ⟨h.nodup, List.nodup_singleton i, fun a ha b hb hab => ?_⟩
    rw [List.mem_singleton.mp hb] at hab
    exact hi (hab ▸ ha)
  · rw [modules_cons, List.mem_append, List.mem_singleton] at hk ⊢
    rcases hk with hk | rfl
    · exact .inl (h.closed k hk j hj hkj)
    · exact .inl (hparents j hj hkj)

/-- With a module, everything that it inherits is finished. -/
theorem Settled.of_reaches (h : memo.Settled r) (hi : i ∈ memo.modules) (hij : r.Reaches i j)
    (hj : j < r.length) : j ∈ memo.modules := by
  induction hij with
  | refl => exact hi
  | tail _ hkj ih => exact h.closed _ (ih hkj.lt_length) _ hj hkj

end Memo

namespace Resolver

variable {r : Registry} {path : List DescriptorId} {i : DescriptorId} {memo : Memo}

/-! ### What a visit leaves -/

/-- Between two memos the modules `done` have been finished, in this order and off the path, and
the log has their reports. -/
structure Finishes (r : Registry) (path : List DescriptorId) (before : Memo)
    (done : List DescriptorId) (after : Memo) (log : List Record) : Prop where
  modules : after.modules = before.modules ++ done
  reported : warnings log = done.flatMap (report r)
  offPath : ∀ i ∈ done, i ∉ path

theorem Finishes.refl (r : Registry) (path : List DescriptorId) (memo : Memo) :
    Finishes r path memo [] memo [] :=
  ⟨(List.append_nil _).symm, rfl, fun _ h => by cases h⟩

theorem Finishes.trans {done done' : List DescriptorId} {middle after : Memo}
    {log log' : List Record} (h : Finishes r path memo done middle log)
    (h' : Finishes r path middle done' after log') :
    Finishes r path memo (done ++ done') after (log ++ log') := by
  refine ⟨?_, ?_, fun i hi => ?_⟩
  · rw [h'.modules, h.modules, List.append_assoc]
  · rw [warnings_append, h.reported, h'.reported, List.flatMap_append]
  · exact (List.mem_append.mp hi).elim (h.offPath i) (h'.offPath i)

/-- What is logged between visits is no warning. -/
theorem Finishes.append_log {done : List DescriptorId} {after : Memo} {log log' : List Record}
    (h : Finishes r path memo done after log) (hlog : warnings log' = []) :
    Finishes r path memo done after (log ++ log') :=
  ⟨h.modules, by rw [warnings_append, hlog, List.append_nil, h.reported], h.offPath⟩

theorem Finishes.mem_modules {done : List DescriptorId} {after : Memo} {log : List Record}
    (h : Finishes r path memo done after log) (hi : i ∈ memo.modules) : i ∈ after.modules :=
  h.modules ▸ List.mem_append_left _ hi

/-- What is left when the modules `asked` have been visited: modules that have been finished, a memo
that is settled, and on success the modules asked for in it. -/
structure Leaves (r : Registry) (path : List DescriptorId) (memo : Memo)
    (asked : List DescriptorId) (v : Visit) : Prop where
  finishes : ∃ done, Finishes r path memo done v.memo v.log
  settled : v.memo.Settled r
  noted : ∀ e, v.outcome = .ok e → ∀ i ∈ asked, i < r.length → i ∈ v.memo.modules

/-- The references of a module in turn, given what visits of single modules on this path leave. -/
theorem leaves_visitParents
    (hvisit : ∀ memo p, Memo.Settled r memo → Leaves r path memo [p] (visit r path memo p)) :
    ∀ (ps : List DescriptorId) (memo : Memo) (merged : Effective), Memo.Settled r memo →
      Leaves r path memo ps (visitParents r path memo merged ps)
  | [], memo, merged, hmemo => by
    rw [visitParents_nil]
    exact ⟨⟨[], .refl r path memo⟩, hmemo, fun _ _ _ h => by cases h⟩
  | p :: ps, memo, merged, hmemo => by
    obtain ⟨⟨done, hdone⟩, hsettled, hnoted⟩ := hvisit memo p hmemo
    cases hout : (visit r path memo p).outcome with
    | error labels =>
      rw [visitParents_of_error merged ps hout]
      exact ⟨⟨done, hdone⟩, hsettled, fun _ h => by cases h⟩
    | ok e =>
      obtain ⟨⟨done', hdone'⟩, hsettled', hnoted'⟩ := leaves_visitParents hvisit ps
        (visit r path memo p).memo (merged.mergeWith e) hsettled
      rw [visitParents_of_ok merged ps hout]
      refine ⟨⟨done ++ done', (hdone.append_log (by simp)).trans hdone'⟩, hsettled',
        fun e' he' q hq hlt => ?_⟩
      rcases List.mem_cons.mp hq with rfl | hq
      · exact hdone'.mem_modules (hnoted e hout q (List.mem_singleton_self q) hlt)
      · exact hnoted' e' he' q hq hlt

/-- A module that is neither known nor on the path, given what its references leave. -/
theorem leaves_visit_of_fresh (hlookup : memo.lookup i = none) (hi : i < r.length)
    (hfresh : path.contains i = false)
    (hparents : Leaves r (path ++ [i]) memo (r.get i).parents (descend r path memo i)) :
    Leaves r path memo [i] (visit r path memo i) := by
  obtain ⟨⟨done, hdone⟩, hsettled, hnoted⟩ := hparents
  have hdone' : Finishes r path memo done (descend r path memo i).memo
      (descend r path memo i).log :=
    ⟨hdone.modules, hdone.reported, fun j hj hmem =>
      hdone.offPath j hj (List.mem_append_left _ hmem)⟩
  cases hout : (descend r path memo i).outcome with
  | error labels =>
    rw [visit_of_error hlookup hi hfresh hout]
    exact ⟨⟨done, hdone'⟩, hsettled, fun _ h => by cases h⟩
  | ok e =>
    -- the module was on the path of its references, so none of them has finished it
    have hnew : i ∉ (descend r path memo i).memo.modules := by
      rw [hdone.modules, List.mem_append]
      rintro (hmem | hmem)
      · obtain ⟨e, he⟩ := Memo.mem_modules_iff.mp hmem
        rw [hlookup] at he
        cases he
      · exact hdone.offPath i hmem (List.mem_append_right _ (List.mem_singleton_self i))
    rw [visit_of_ok hlookup hi hfresh hout]
    refine ⟨⟨done ++ [i], hdone'.trans ⟨Memo.modules_cons .., ?_, fun j hj hmem => ?_⟩⟩,
      hsettled.cons hnew fun j hj hij => hnoted e hout j hij hj, fun _ _ j hj _ => ?_⟩
    · rw [warnings_ownLog, List.flatMap_singleton]
    · rw [List.mem_singleton.mp hj, ← List.contains_iff_mem, hfresh] at hmem
      cases hmem
    · rw [Memo.modules_cons]
      exact List.mem_append_right _ hj

/-- **What a visit leaves.** The induction is on the number of modules that are not on the path. -/
theorem leaves_visit (r : Registry) (path : List DescriptorId) (memo : Memo) (i : DescriptorId)
    (hmemo : memo.Settled r) : Leaves r path memo [i] (visit r path memo i) := by
  induction hn : unvisited r path using Nat.strong_induction_on generalizing path memo i with
  | _ n ih =>
    cases hlookup : memo.lookup i with
    | some e =>
      rw [visit_of_lookup hlookup]
      refine ⟨⟨[], .refl r path memo⟩, hmemo, fun _ _ j hj _ => ?_⟩
      exact Memo.mem_modules_iff.mpr ⟨e, List.mem_singleton.mp hj ▸ hlookup⟩
    | none =>
      rcases Nat.lt_or_ge i r.length with hi | hi
      · cases hfresh : path.contains i with
        | true =>
          rw [visit_of_mem hlookup hi hfresh]
          exact ⟨⟨[], .refl r path memo⟩, hmemo, fun _ h => by cases h⟩
        | false =>
          have hless := unvisited_lt hi hfresh
          exact leaves_visit_of_fresh hlookup hi hfresh <| leaves_visitParents
            (fun memo p hmemo => ih _ (hn ▸ hless) (path ++ [i]) memo p hmemo rfl) _ _ _ hmemo
      · rw [visit_of_length_le hlookup hi]
        refine ⟨⟨[], .refl r path memo⟩, hmemo, fun _ _ j hj hlt => ?_⟩
        rw [List.mem_singleton.mp hj] at hlt
        exact absurd hlt (Nat.not_lt_of_le hi)

/-! ### All calls of one resolver -/

/-- The calls of one resolver that is asked for one module after the other, each with what it
gives. -/
def session (r : Registry) : Memo → List DescriptorId → List (DescriptorId × Visit)
  | _, [] => []
  | memo, i :: is => (i, resolve r memo i) :: session r (resolve r memo i).memo is

@[simp] theorem map_fst_session (r : Registry) (memo : Memo) (is : List DescriptorId) :
    (session r memo is).map Prod.fst = is := by
  induction is generalizing memo with
  | nil => rfl
  | cons i is ih => rw [session, List.map_cons, ih]

@[simp] theorem map_outcome_session (r : Registry) (memo : Memo) (is : List DescriptorId) :
    ((session r memo is).map fun call => call.2.outcome) = resolveAll r memo is := by
  induction is generalizing memo with
  | nil => rfl
  | cons i is ih => rw [session, List.map_cons, ih, resolveAll]

theorem leaves_resolve (hmemo : memo.Settled r) : Leaves r [] memo [i] (resolve r memo i) := by
  obtain ⟨hfinishes, hsettled, hnoted⟩ := leaves_visit r [] memo i hmemo
  refine ⟨hfinishes, hsettled, fun e he => ?_⟩
  rw [outcome_resolve] at he
  cases hout : (visit r [] memo i).outcome with
  | error labels =>
    rw [hout] at he
    cases he
  | ok e' => exact hnoted e' hout

/-- A resolver that goes on from a memo: what is finished in the end, with the reports of what has
been finished since. -/
theorem finishes_session : ∀ (is : List DescriptorId) {memo : Memo}, memo.Sound r →
    memo.Settled r → ∃ done after,
      Finishes r [] memo done after ((session r memo is).flatMap fun call => call.2.log) ∧
        after.Sound r ∧ after.Settled r ∧
        ∀ call ∈ session r memo is, ∀ e, call.2.outcome = .ok e → call.1 < r.length →
          call.1 ∈ after.modules
  | [], memo, hsound, hmemo => ⟨[], memo, .refl r [] memo, hsound, hmemo, fun _ h => by cases h⟩
  | i :: is, memo, hsound, hmemo => by
    obtain ⟨⟨done, hdone⟩, hsettled, hnoted⟩ := leaves_resolve (i := i) hmemo
    obtain ⟨done', after, hdone', hsound', hsettled', hnoted'⟩ :=
      finishes_session is (sound_memo_resolve (i := i) hsound) hsettled
    refine ⟨done ++ done', after, hdone.trans hdone', hsound', hsettled', ?_⟩
    intro call hcall e he hlt
    rcases List.mem_cons.mp hcall with rfl | hcall
    · exact hdone'.mem_modules (hnoted e he i (List.mem_singleton_self i) hlt)
    · exact hnoted' call hcall e he hlt

/-- **Repeated declarations are reported once.** The warnings of all calls of one resolver, those
that fail included, are the reports of pairwise different modules one behind the other. Every
module that can be reached from one for which a call succeeded is among these, and no module is
from which a cycle can be reached. -/
theorem warnings_session (r : Registry) (is : List DescriptorId) :
    ∃ js : List DescriptorId, js.Nodup ∧
      warnings ((session r [] is).flatMap fun call => call.2.log) = js.flatMap (report r) ∧
      (∀ call ∈ session r [] is, ∀ e, call.2.outcome = .ok e →
        ∀ j < r.length, r.Reaches call.1 j → j ∈ js) ∧
      ∀ j ∈ js, r.CycleFree j := by
  obtain ⟨js, after, hjs, hsound, hsettled, hnoted⟩ :=
    finishes_session is (Memo.sound_nil r) (Memo.settled_nil r)
  have hmodules : after.modules = js := hjs.modules
  refine ⟨js, hmodules ▸ hsettled.nodup, hjs.reported, fun call hcall e he j hj hreach => ?_,
    fun j hj => hsound.cycleFree (hmodules ▸ hj)⟩
  have hlt : call.1 < r.length := by
    rcases Relation.ReflTransGen.cases_head hreach with rfl | ⟨k, hk, -⟩
    · exact hj
    · exact hk.lt_length
  exact hmodules ▸ hsettled.of_reaches (hnoted call hcall e he hlt) hreach hj

/-- The first call fails behind a module that it finishes on the way. -/
example : warnings ((session diamond [] [4, 3, 2, 3]).flatMap fun call => call.2.log) =
    [repeatedWarning "top" .output "d"] := by
  cbv

end Resolver

end ModulePins
