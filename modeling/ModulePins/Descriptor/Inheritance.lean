import ModulePins.Descriptor.Basic

/-!
# Effective pins

The pins that a module has after inheritance: those of the modules it refers to, in order, and then
its own, where a pin replaces one with the same id at its place. An input pin whose id is among the
outputs shows the properties of that output.

The references are followed depth first. Results are kept in a memo, so that a module that several
others refer to is resolved once; a module met again while its own references are being followed
lies on a cycle, and the resolution fails with the labels of the cycle. The walk ends because the
modules whose references are being followed differ, and there are finitely many.

## Main definitions

* `Effective` — output and input pins;
* `Resolver.visit` — the pins of one module, with the memo and the log records that result;
* `Resolver.resolve` — the same with the properties of the input pins.
-/

namespace ModulePins

/-- The pins of a module after inheritance. -/
structure Effective where
  outputs : List Pin
  inputs : List Pin
  deriving DecidableEq, Repr, Inhabited

namespace Effective

def outputIds (e : Effective) : List String := e.outputs.map Pin.id

def inputIds (e : Effective) : List String := e.inputs.map Pin.id

/-- Writes pins over those with the same ids. -/
def merge (target pins : List Pin) : List Pin := Keyed.putAll Pin.id target pins

/-- Gives each input pin the properties of the output pin with its id. -/
def attach (e : Effective) : Effective :=
  { e with inputs := e.inputs.map fun p =>
      match Keyed.find? Pin.id p.id e.outputs with
      | some o => p.attach o
      | none => p }

end Effective

/-- What is known of the modules resolved so far. -/
abbrev Memo := List (DescriptorId × Effective)

namespace Resolver

/-- A record about inheritance. -/
def note (level : Level) (message : String) : Record :=
  ⟨level, .inheritance, Subsystem.inherit.say message⟩

/-- The records of merging pins that come from the module with the given label. -/
def mergeLog (source : String) : List Pin → List Pin → List Record
  | _, [] => []
  | target, p :: ps =>
    (if Keyed.hasKey Pin.id p.id target then
      [note .debug ("PIN " ++ Text.quoted p.id ++ " overridden by " ++ source)]
    else []) ++ mergeLog source (Keyed.put Pin.id p target) ps

/-- The warnings about pins that a module declares more than once; `seen` are the ids before. -/
def duplicateLog (owner : String) (direction : Direction) : List String → List Pin → List Record
  | _, [] => []
  | seen, p :: ps =>
    (if seen.contains p.id then
      [note .warning (owner ++ ": " ++ direction.word ++ " PIN " ++ Text.quoted p.id ++
        " declared more than once, keeping the last declaration")]
    else []) ++ duplicateLog owner direction (p.id :: seen) ps

/-- The warnings about all pins that a module declares more than once. -/
def duplicates (r : Registry) (i : DescriptorId) : List Record :=
  duplicateLog (r.label i) .output [] (r.get i).outputs ++
    duplicateLog (r.label i) .input [] (r.get i).inputs

/-- The pins of a module, from those it inherits. -/
def own (d : Descriptor) (inherited : Effective) : Effective :=
  ⟨Effective.merge inherited.outputs d.outputs, Effective.merge inherited.inputs d.inputs⟩

/-- The records of working a module's own pins in. -/
def ownLog (r : Registry) (i : DescriptorId) (inherited : Effective) : List Record :=
  let d := r.get i
  let label := r.label i
  let result := own d inherited
  duplicates r i ++ mergeLog label inherited.outputs d.outputs ++
    mergeLog label inherited.inputs d.inputs ++
    (if d.parents.isEmpty then []
    else
      [note .debug (label ++ ": inherited from " ++ Text.quotedList (d.parents.map r.label) ++
        " -> outputs=" ++ Text.quotedList result.outputIds ++ ", inputs=" ++
        Text.quotedList result.inputIds)])

/-- The labels of the cycle that closes at `i`: from its place on the path, the first again last. -/
def cycleFrom (r : Registry) (path : List DescriptorId) (i : DescriptorId) : List String :=
  (path.dropWhile (· ≠ i)).map r.label ++ [r.label i]

/-- The outcome of a visit: the pins or the labels of a cycle, the memo, and the log. -/
structure Visit where
  outcome : Except (List String) Effective
  memo : Memo
  log : List Record

/-- The number of registered modules that are not on the path. -/
def unvisited (r : Registry) (path : List DescriptorId) : Nat :=
  (List.range r.length).countP fun i => !path.contains i

theorem unvisited_lt {r : Registry} {path : List DescriptorId} {i : DescriptorId}
    (registered : i < r.length) (fresh : path.contains i = false) :
    unvisited r (path ++ [i]) < unvisited r path := by
  have weak (l : List Nat) : l.countP (fun j => !(path ++ [i]).contains j) ≤
      l.countP (fun j => !path.contains j) :=
    List.countP_mono_left fun j _ h => by simp at h ⊢; exact h.1
  have strict (l : List Nat) (h : i ∈ l) : l.countP (fun j => !(path ++ [i]).contains j) <
      l.countP (fun j => !path.contains j) := by
    induction l with
    | nil => simp at h
    | cons a l ih =>
      by_cases ha : a = i
      · subst ha
        rw [List.countP_cons_of_neg (by simp),
          List.countP_cons_of_pos (by simp at fresh ⊢; exact fresh)]
        exact Nat.lt_succ_of_le (weak l)
      · have hi := ih (by simpa [Ne.symm ha] using h)
        rw [List.countP_cons, List.countP_cons]
        have step : (!(path ++ [i]).contains a) = !path.contains a := by simp [ha]
        rw [step]
        omega
  exact strict _ (List.mem_range.2 registered)

mutual

/-- Resolves the module `i` that the modules on `path` lead to. -/
def visit (r : Registry) (path : List DescriptorId) (memo : Memo) (i : DescriptorId) : Visit :=
  match memo.lookup i with
  | some e => ⟨.ok e, memo, []⟩
  | none =>
    if registered : i < r.length then
      if fresh : path.contains i = false then
        have := unvisited_lt registered fresh
        let v := visitParents r (path ++ [i]) memo ⟨[], []⟩ (r.get i).parents
        match v.outcome with
        | .error cycle => ⟨.error cycle, v.memo, v.log⟩
        | .ok inherited =>
          let e := own (r.get i) inherited
          ⟨.ok e, (i, e) :: v.memo, v.log ++ ownLog r i inherited⟩
      else ⟨.error (cycleFrom r path i), memo, []⟩
    else ⟨.ok ⟨[], []⟩, memo, []⟩
  termination_by (unvisited r path, 0)

/-- Resolves the modules that the last module of `path` refers to, and merges their pins. -/
def visitParents (r : Registry) (path : List DescriptorId) (memo : Memo) (merged : Effective) :
    List DescriptorId → Visit
  | [] => ⟨.ok merged, memo, []⟩
  | p :: ps =>
    let v := visit r path memo p
    match v.outcome with
    | .error cycle => ⟨.error cycle, v.memo, v.log⟩
    | .ok e =>
      let label := r.label p
      let log := mergeLog label merged.outputs e.outputs ++ mergeLog label merged.inputs e.inputs
      let w := visitParents r path v.memo
        ⟨Effective.merge merged.outputs e.outputs, Effective.merge merged.inputs e.inputs⟩ ps
      ⟨w.outcome, w.memo, v.log ++ log ++ w.log⟩
  termination_by ps => (unvisited r path, ps.length + 1)

end

/-- The effective pins of a module, with the properties of its input pins. -/
def resolve (r : Registry) (memo : Memo) (i : DescriptorId) : Visit :=
  let v := visit r [] memo i
  { v with outcome := v.outcome.map Effective.attach }

end Resolver

end ModulePins
