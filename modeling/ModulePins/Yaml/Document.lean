import ModulePins.Yaml.Content
import ModulePins.Yaml.Node.Parser

/-!
# Documents

From the text of a document to its value, in three steps: the node (`Yaml.node?`), the node with
its merge keys worked in (`Node.mergeKeys`), and the value (`Node.build`).

A merge key `<<` puts the members of the mappings it names in front of the own ones, which win; of
several mappings the first one wins.

A document with several faults is refused for the one that lies least deep, and among those for the
first: the members of a collection come before what lies inside them. `Built` carries the first
fault of a node together with its depth, so that this order needs no second pass.

* `Yaml.read` — the value of a document, `null` if there is none.
-/

namespace ModulePins

namespace Yaml

namespace Node

/-- A member that no document can have: the outcome of a merge key whose value is no mapping. -/
def badMember : Node × Node := (scalar (.foreign "") "", absent)

/-- The members that a merge key with this value brings in. -/
def mergedMembers? : Node → Option (List (Node × Node))
  | mapping _ es => some es
  | sequence _ items =>
    (items.reverse.mapM fun
      | mapping _ es => some es
      | _ => none).map List.flatten
  | scalar _ _ => none

/-- Works the merge keys of a member list in; a key `=` is a text. -/
def workIn (es : List (Node × Node)) : List (Node × Node) :=
  let merging := es.filter fun e => e.1.tag = .merge
  let own := es.filter fun e => e.1.tag ≠ .merge
  match merging.mapM fun e => mergedMembers? e.2 with
  | none => [badMember]
  | some merged =>
    merged.flatten ++ own.map fun e =>
      match e.1 with
      | scalar .value text => (scalar .str text, e.2)
      | k => (k, e.2)

mutual

/-- The node with the merge keys of all mappings worked in. The items of an ordered list keep
their keys as they are. -/
def mergeKeys : Node → Node
  | scalar t text => scalar t text
  | sequence t items =>
    if t = .omap || t = .pairs then sequence t (mergeItems items)
    else sequence t (mergeList items)
  | mapping t es =>
    if t = .map || t = .set then mapping t (workIn (mergeEntries es))
    else mapping t (mergeEntries es)

/-- The same for the items of a sequence. -/
def mergeList : List Node → List Node
  | [] => []
  | n :: ns => mergeKeys n :: mergeList ns

/-- The same for the items of an ordered list. -/
def mergeItems : List Node → List Node
  | [] => []
  | mapping t es :: ns => mapping t (mergeEntries es) :: mergeItems ns
  | n :: ns => mergeKeys n :: mergeItems ns

/-- The same for the members of a mapping. -/
def mergeEntries : List (Node × Node) → List (Node × Node)
  | [] => []
  | (k, v) :: es => (mergeKeys k, mergeKeys v) :: mergeEntries es

end

/-- The text of a scalar; a mapping stands for the text of its `=` member. -/
def text? : Node → Option String
  | scalar _ text => some text
  | sequence _ _ => none
  | mapping _ es => textOf es
where
  /-- The text of the first `=` member. -/
  textOf : List (Node × Node) → Option String
    | [] => none
    | (k, v) :: es => if k.tag = .value then text? v else textOf es

end Node

/-- A fault and how deep it lies. -/
abbrev DeepFault := Nat × Fault

/-- Of two faults the less deep one, of equally deep ones the first. -/
def lessDeep : Option DeepFault → Option DeepFault → Option DeepFault
  | none, b => b
  | a, none => a
  | some a, some b => if b.1 < a.1 then some b else some a

/-- A value with the first fault met on the way to it. -/
structure Built where
  value : Value
  fault : Option DeepFault

namespace Built

def ofScalar : Except Fault Value → Built
  | .ok v => ⟨v, none⟩
  | .error f => ⟨.null, some (0, f)⟩

/-- A refused node; a collection is refused only when its members are looked at. -/
def refused (depth : Nat) : Built := ⟨.null, some (depth, .malformed)⟩

/-- The first fault among the members of a collection, seen from the collection. -/
def inside (members : List Built) : Option DeepFault :=
  (members.foldl (fun f b => lessDeep f b.fault) none).map fun f => (f.1 + 1, f.2)

/-- A key; a collection is none, whatever lies inside it. -/
def asKey (b : Built) : Built :=
  if b.value.key?.isSome then b
  else { b with fault := lessDeep b.fault (some (0, .malformed)) }

/-- A list. -/
def list (items : List Built) : Built :=
  ⟨.list (items.map (·.value)), inside items⟩

/-- The keys and values of members in turn. -/
def members (es : List (Built × Built)) : List Built :=
  es.flatMap fun e => [e.1.asKey, e.2]

/-- A mapping. -/
def mapping (es : List (Built × Built)) : Built :=
  ⟨.mapping (es.foldl (fun acc e => Value.setEntry e.1.value e.2.value acc) []),
    inside (members es)⟩

/-- A set: the keys of a mapping. -/
def set (es : List (Built × Built)) : Built :=
  ⟨.set (es.foldl (fun acc e => Value.addItem e.1.value acc) []), inside (members es)⟩

/-- A list of keys with values. -/
def pairs (items : List (Option (Built × Built))) : Built :=
  ⟨.list (items.filterMap fun i => i.map fun e => .pair e.1.value e.2.value),
    inside (items.flatMap fun
      | some e => [e.1, e.2]
      | none => [refused 0])⟩

end Built

namespace Node

mutual

/-- The value of a node without merge keys. -/
def build : Node → Built
  | scalar t text => .ofScalar (Content.ofScalar t text)
  | sequence t items =>
    match t with
    | .seq => .list (buildList items)
    | .omap | .pairs => .pairs (buildPairs items)
    | .map | .set => .refused 1
    | _ => .refused 0
  | mapping t es =>
    match t with
    | .map => .mapping (buildEntries es)
    | .set => .set (buildEntries es)
    | .seq | .omap | .pairs => .refused 1
    | t =>
      if Content.isScalarTag t then
        match text? (mapping t es) with
        | some text => .ofScalar (Content.ofScalar t text)
        | none => .refused 0
      else .refused 0

/-- The values of the items of a sequence. -/
def buildList : List Node → List Built
  | [] => []
  | n :: ns => build n :: buildList ns

/-- The values of the members of a mapping. -/
def buildEntries : List (Node × Node) → List (Built × Built)
  | [] => []
  | (k, v) :: es => (build k, build v) :: buildEntries es

/-- The values of the items of an ordered list: mappings of one member each. -/
def buildPairs : List Node → List (Option (Built × Built))
  | [] => []
  | mapping _ [(k, v)] :: ns => some (build k, build v) :: buildPairs ns
  | _ :: ns => none :: buildPairs ns

end

end Node

/-- The value of a document. -/
def read (s : List Char) : Except Fault Value := do
  match ← node? s with
  | none => return .null
  | some n =>
    let b := n.mergeKeys.build
    match b.fault with
    | some f => throw f.2
    | none => return b.value

end Yaml

end ModulePins
