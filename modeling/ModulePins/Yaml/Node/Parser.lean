import ModulePins.Yaml.Node.Implicit
import ModulePins.Yaml.Token.Lexer

/-!
# From tokens to nodes

The grammar of documents, by recursive descent over the tokens. Every reader returns what remains
together with a proof that it is shorter, which is why the descent ends.

* `Node.parse` — one node with its anchor and tag;
* `Yaml.node?` — the node of a text with at most one document, and nothing if it has none.

An alias stands for the node that its anchor named; inside a collection that is still being read,
the name of that collection stands for it without its items. A name is given only once.
-/

namespace ModulePins

namespace Yaml

/-- The nodes that have been named, by name. -/
abbrev Anchors := List (String × Node)

/-- The handles of the document, with what they stand for. -/
abbrev Handles := List (String × String)

namespace Node

/-- What a reader returns: the result, the names given so far, and a rest shorter than `bound`. -/
structure Parsed (α : Type) (bound : Nat) where
  result : α
  anchors : Anchors
  rest : List Token
  shorter : rest.length < bound

/-- The fault of finding these tokens where they do not belong: one of the text, if it was cut off
here. -/
def misplaced {α : Type} : List Token → Except Fault α
  | .fault f :: _ => .error f
  | _ => .error .malformed

/-- Fails where the text was cut off. -/
def certain : List Token → Except Fault Unit
  | .fault f :: _ => .error f
  | _ => .ok ()

/-- An anchor and a tag in front of a node, in either order. -/
structure Properties where
  anchor : Option String
  tag : Option (Option String × String)

/-- The properties in front of a node, and what follows. -/
def properties (ts : List Token) : Properties × { r : List Token // r.length ≤ ts.length } :=
  match ts with
  | .anchor a :: .tag h s :: r =>
    (⟨some a, some (h, s)⟩, ⟨r, by simp only [List.length_cons]; omega⟩)
  | .tag h s :: .anchor a :: r =>
    (⟨some a, some (h, s)⟩, ⟨r, by simp only [List.length_cons]; omega⟩)
  | .anchor a :: r => (⟨some a, none⟩, ⟨r, by simp⟩)
  | .tag h s :: r => (⟨none, some (h, s)⟩, ⟨r, by simp⟩)
  | r => (⟨none, none⟩, ⟨r, Nat.le_refl _⟩)

/-- The full name of a tag; its handle must be known. -/
def fullTag (handles : Handles) : Option (Option String × String) → Except Fault (Option String)
  | none => .ok none
  | some (none, suffix) => .ok (some suffix)
  | some (some h, suffix) =>
    match handles.lookup h with
    | some uri => .ok (some (uri ++ suffix))
    | none => .error .malformed

/-- The tag of a scalar: without a tag of its own, or with `!` alone, it goes by its form if it is
plain (with `!`, always) and is a text otherwise. -/
def scalarTag (uri : Option String) (plain : Bool) (text : String) : Tag :=
  match uri with
  | some "!" => Implicit.tagOf text
  | some u => .ofUri u
  | none => if plain then Implicit.tagOf text else .str

/-- The tag of a collection. -/
def collectionTag (uri : Option String) (own : Tag) : Tag :=
  match uri with
  | some "!" => own
  | some u => .ofUri u
  | none => own

/-- Gives a name to a node; a name is given only once. -/
def register (anchors : Anchors) (anchor : Option String) (n : Node) : Except Fault Anchors :=
  match anchor with
  | none => .ok anchors
  | some a => if (anchors.lookup a).isSome then .error .malformed else .ok ((a, n) :: anchors)

/-- Gives the name of a collection, after its items have been read, to the whole of it. -/
def complete (anchors : Anchors) (anchor : Option String) (n : Node) : Anchors :=
  match anchor with
  | none => anchors
  | some a => (a, n) :: anchors

/-- Does a key or value in a block end before it begins? -/
def blockAbsent : List Token → Bool
  | .key :: _ => true
  | .value :: _ => true
  | .blockEnd :: _ => true
  | _ => false

/-- Does an entry of a block sequence end before it begins? -/
def entryAbsent : List Token → Bool
  | .blockEntry :: _ => true
  | .blockEnd :: _ => true
  | _ => false

/-- Does a key inside brackets, closed by `close`, end before it begins? -/
def flowKeyAbsent (close : Token) : List Token → Bool
  | .value :: _ => true
  | .flowEntry :: _ => true
  | t :: _ => t = close
  | [] => false

/-- Does a value inside brackets, closed by `close`, end before it begins? -/
def flowValueAbsent (close : Token) : List Token → Bool
  | .flowEntry :: _ => true
  | t :: _ => t = close
  | [] => false

/-- Where a node stands, which decides what it may be. -/
inductive Place where
  /-- Inside brackets. -/
  | flow
  /-- In a block. -/
  | block
  /-- In a block mapping, where a sequence needs no indentation. -/
  | member
  deriving DecidableEq

/-- The kinds of collections by how they begin. -/
inductive Opening where
  | flowSequence
  | flowMapping
  | blockSequence
  | blockMapping
  /-- A sequence without indentation of its own. -/
  | flatSequence
  deriving DecidableEq

namespace Opening

/-- The collection that begins here, and what follows its first token. -/
def find? (place : Place) : List Token → Option (Opening × List Token)
  | .flowSequenceStart :: r => some (.flowSequence, r)
  | .flowMappingStart :: r => some (.flowMapping, r)
  | .blockSequenceStart :: r => if place = .flow then none else some (.blockSequence, r)
  | .blockMappingStart :: r => if place = .flow then none else some (.blockMapping, r)
  | .blockEntry :: r => if place = .member then some (.flatSequence, r) else none
  | _ => none

theorem length_of_find? {place : Place} {ts r : List Token} {o : Opening}
    (h : find? place ts = some (o, r)) : r.length < ts.length := by
  unfold find? at h
  split at h <;> (try split at h) <;> simp at h <;> simp [h.2]

/-- The tag of such a collection, unless it has one of its own. -/
def tag : Opening → Tag
  | flowMapping | blockMapping => .map
  | flowSequence | blockSequence | flatSequence => .seq

/-- Such a collection without items. -/
def bare (o : Opening) (t : Tag) : Node :=
  match o with
  | flowMapping | blockMapping => mapping t []
  | flowSequence | blockSequence | flatSequence => sequence t []

end Opening

/-- Steps over the comma in front of all entries inside brackets but the first. -/
def separated (first : Bool) (ts : List Token) :
    Except Fault { r : List Token // r.length ≤ ts.length } :=
  if first then .ok ⟨ts, Nat.le_refl _⟩
  else
    match ts with
    | .flowEntry :: r => .ok ⟨r, by simp⟩
    | ts => misplaced ts

mutual

/-- One node. -/
def parse (handles : Handles) (place : Place) (anchors : Anchors) (ts : List Token) :
    Except Fault (Parsed Node ts.length) :=
  match ts with
  | .alias name :: r =>
    match anchors.lookup name with
    | some n => .ok ⟨n, anchors, r, Nat.lt_succ_self _⟩
    | none => .error .malformed
  | ts => do
    let (p, ⟨body, le⟩) := properties ts
    let uri ← fullTag handles p.tag
    match h : Opening.find? place body with
    | some (o, r) =>
      have := Opening.length_of_find? h
      let tag := collectionTag uri o.tag
      let opened ← register anchors p.anchor (o.bare tag)
      let q ← collection handles tag o opened r
      return ⟨q.result, complete q.anchors p.anchor q.result, q.rest, by
        have := q.shorter; omega⟩
    | none =>
      match body, le with
      | .scalar text plain :: r, le =>
        let n := scalar (scalarTag uri plain text) text
        return ⟨n, ← register anchors p.anchor n, r, by simp only [List.length_cons] at le; omega⟩
      | body, _ =>
        if shorter : body.length < ts.length then do
          certain body
          let n := scalar (scalarTag uri true "") ""
          return ⟨n, ← register anchors p.anchor n, body, shorter⟩
        else misplaced body
  termination_by 4 * ts.length + 0

/-- A collection, from behind its first token. -/
def collection (handles : Handles) (tag : Tag) (o : Opening) (anchors : Anchors)
    (ts : List Token) : Except Fault (Parsed Node (ts.length + 1)) := do
  match o with
  | .flowSequence =>
    let q ← flowSequence handles true anchors ts
    return ⟨sequence tag q.result, q.anchors, q.rest, q.shorter⟩
  | .flowMapping =>
    let q ← flowMapping handles true anchors ts
    return ⟨mapping tag q.result, q.anchors, q.rest, q.shorter⟩
  | .blockSequence =>
    let q ← blockSequence handles anchors ts
    return ⟨sequence tag q.result, q.anchors, q.rest, q.shorter⟩
  | .blockMapping =>
    let q ← blockMapping handles anchors ts
    return ⟨mapping tag q.result, q.anchors, q.rest, q.shorter⟩
  | .flatSequence =>
    let q ← flatSequence handles anchors ts
    return ⟨sequence tag q.result, q.anchors, q.rest, q.shorter⟩
  termination_by 4 * ts.length + 3

/-- A node that may be absent. -/
def optional (handles : Handles) (isAbsent : List Token → Bool) (place : Place)
    (anchors : Anchors) (ts : List Token) : Except Fault (Parsed Node (ts.length + 1)) :=
  if isAbsent ts then .ok ⟨absent, anchors, ts, Nat.lt_succ_self _⟩
  else do
    let q ← parse handles place anchors ts
    return ⟨q.result, q.anchors, q.rest, Nat.lt_succ_of_lt q.shorter⟩
  termination_by 4 * ts.length + 1

/-- The value behind a value mark, if there is one. -/
def markedValue (handles : Handles) (isAbsent : List Token → Bool) (place : Place)
    (anchors : Anchors) (ts : List Token) : Except Fault (Parsed Node (ts.length + 1)) :=
  match ts with
  | .value :: r => do
    let q ← optional handles isAbsent place anchors r
    return ⟨q.result, q.anchors, q.rest, by have := q.shorter; simp only [List.length_cons]; omega⟩
  | ts => do
    certain ts
    return ⟨absent, anchors, ts, Nat.lt_succ_self _⟩
  termination_by 4 * ts.length + 1

/-- The entries of an indented sequence. -/
def blockSequence (handles : Handles) (anchors : Anchors) (ts : List Token) :
    Except Fault (Parsed (List Node) (ts.length + 1)) :=
  match ts with
  | .blockEntry :: r => do
    let n ← optional handles entryAbsent .block anchors r
    have := n.shorter
    let q ← blockSequence handles n.anchors n.rest
    return ⟨n.result :: q.result, q.anchors, q.rest, by
      have := q.shorter; simp only [List.length_cons]; omega⟩
  | .blockEnd :: r => .ok ⟨[], anchors, r, by simp only [List.length_cons]; omega⟩
  | ts => misplaced ts
  termination_by 4 * ts.length + 2

/-- The entries of a sequence without indentation, from behind the mark of the first one. -/
def flatSequence (handles : Handles) (anchors : Anchors) (ts : List Token) :
    Except Fault (Parsed (List Node) (ts.length + 1)) := do
  let isAbsent (ts : List Token) : Bool := entryAbsent ts || blockAbsent ts
  let n ← optional handles isAbsent .block anchors ts
  have := n.shorter
  match h : n.rest with
  | .blockEntry :: r =>
    have : r.length + 1 = n.rest.length := (congrArg List.length h).symm
    let q ← flatSequence handles n.anchors r
    return ⟨n.result :: q.result, q.anchors, q.rest, by have := q.shorter; omega⟩
  | rest => do
    certain rest
    return ⟨[n.result], n.anchors, rest, by rw [← h]; omega⟩
  termination_by 4 * ts.length + 2

/-- The members of an indented mapping. -/
def blockMapping (handles : Handles) (anchors : Anchors) (ts : List Token) :
    Except Fault (Parsed (List (Node × Node)) (ts.length + 1)) :=
  match ts with
  | .key :: r => do
    let k ← optional handles blockAbsent .member anchors r
    have := k.shorter
    let v ← markedValue handles blockAbsent .member k.anchors k.rest
    have := v.shorter
    let q ← blockMapping handles v.anchors v.rest
    return ⟨(k.result, v.result) :: q.result, q.anchors, q.rest, by
      have := q.shorter; simp only [List.length_cons]; omega⟩
  | .blockEnd :: r => .ok ⟨[], anchors, r, by simp only [List.length_cons]; omega⟩
  | ts => misplaced ts
  termination_by 4 * ts.length + 2

/-- The entries of a sequence in brackets; a member among them is a mapping by itself. -/
def flowSequence (handles : Handles) (first : Bool) (anchors : Anchors) (ts : List Token) :
    Except Fault (Parsed (List Node) (ts.length + 1)) :=
  match ts with
  | .flowSequenceEnd :: r => .ok ⟨[], anchors, r, by simp only [List.length_cons]; omega⟩
  | ts => do
    let ⟨body, le⟩ ← separated first ts
    match body, le with
    | .flowSequenceEnd :: r, le =>
      return ⟨[], anchors, r, by simp only [List.length_cons] at le; omega⟩
    | .key :: r, le =>
      have : r.length + 1 ≤ ts.length := le
      let k ← optional handles (flowKeyAbsent .flowSequenceEnd) .flow anchors r
      have := k.shorter
      let v ← markedValue handles (flowValueAbsent .flowSequenceEnd) .flow k.anchors k.rest
      have := v.shorter
      let q ← flowSequence handles false v.anchors v.rest
      return ⟨mapping .map [(k.result, v.result)] :: q.result, q.anchors, q.rest, by
        have := q.shorter; omega⟩
    | body, le =>
      let n ← parse handles .flow anchors body
      have := n.shorter
      let q ← flowSequence handles false n.anchors n.rest
      return ⟨n.result :: q.result, q.anchors, q.rest, by have := q.shorter; omega⟩
  termination_by 4 * ts.length + 2

/-- The members of a mapping in brackets; a node by itself is a key without value. -/
def flowMapping (handles : Handles) (first : Bool) (anchors : Anchors) (ts : List Token) :
    Except Fault (Parsed (List (Node × Node)) (ts.length + 1)) :=
  match ts with
  | .flowMappingEnd :: r => .ok ⟨[], anchors, r, by simp only [List.length_cons]; omega⟩
  | ts => do
    let ⟨body, le⟩ ← separated first ts
    match body, le with
    | .flowMappingEnd :: r, le =>
      return ⟨[], anchors, r, by simp only [List.length_cons] at le; omega⟩
    | .key :: r, le =>
      have : r.length + 1 ≤ ts.length := le
      let k ← optional handles (flowKeyAbsent .flowMappingEnd) .flow anchors r
      have := k.shorter
      let v ← markedValue handles (flowValueAbsent .flowMappingEnd) .flow k.anchors k.rest
      have := v.shorter
      let q ← flowMapping handles false v.anchors v.rest
      return ⟨(k.result, v.result) :: q.result, q.anchors, q.rest, by have := q.shorter; omega⟩
    | body, le =>
      let n ← parse handles .flow anchors body
      have := n.shorter
      let q ← flowMapping handles false n.anchors n.rest
      return ⟨(n.result, absent) :: q.result, q.anchors, q.rest, by have := q.shorter; omega⟩
  termination_by 4 * ts.length + 2

end

end Node

/-- The handles that every document knows. -/
def standardHandles : Handles := [("!", "!"), ("!!", Tag.space)]

/-- What the directives in front of a document say. -/
structure Prologue where
  versioned : Bool
  handles : Handles

/-- Reads directives: one version at most, of the first major version, and each handle once. -/
def directives (p : Prologue) : List Token → Except Fault (Handles × List Token)
  | .directive (.version major _) :: r =>
    if p.versioned || major ≠ 1 then .error .malformed
    else directives { p with versioned := true } r
  | .directive (.tagHandle h uri) :: r =>
    if (p.handles.lookup h).isSome then .error .malformed
    else directives { p with handles := (h, uri) :: p.handles } r
  | .directive (.reserved _) :: r => directives p r
  | ts => .ok (p.handles ++ standardHandles, ts)

/-- A document that begins with a mark, behind its directives. -/
def markedDocument (ts : List Token) : Except Fault (Node × List Token) := do
  let (handles, r) ← directives ⟨false, []⟩ ts
  match r with
  | .documentStart :: r =>
    match r with
    | [] | .directive _ :: _ | .documentStart :: _ | .documentEnd :: _ => return (Node.absent, r)
    | r => do
      let q ← Node.parse handles .block [] r
      return (q.result, q.rest)
  | r => Node.misplaced r

/-- Behind the one document there may only be marks that end it. -/
def noMore (ts : List Token) : Except Fault Unit :=
  match ts.dropWhile (· = .documentEnd) with
  | [] => .ok ()
  | r => do
    let (_, r) ← directives ⟨false, []⟩ r
    Node.misplaced r

/-- The node of a text that holds at most one document. -/
def node? (s : List Char) : Except Fault (Option Node) :=
  if s.all isReadable then
    match tokens s with
    | [] => .ok none
    | ts => do
      let (n, r) ←
        match ts with
        | .directive _ :: _ | .documentStart :: _ => markedDocument ts
        | ts => do
          let q ← Node.parse standardHandles .block [] ts
          pure (q.result, q.rest)
      noMore r
      return some n
  else .error .malformed

end Yaml

end ModulePins
