import ModulePins.Proofs.Yaml.Nodes
import ModulePins.Yaml.Document

/-!
# Values that a text writes and that cannot be made

A document can be well-formed and still have no value, when one of its scalars has none. Texts, nulls
and bytes always have one or are not well-formed; truth values, numbers and dates need not, and
`Content.Fails` says what is wrong with them. A document is refused for such a value only if one of
its scalars writes it, or if its text cannot be cut into tokens for the few reasons of
`Token.Fails`.

The scalars are those of the node with its merge keys worked in, since a merge can hide the members
that it overrides.

## Main definitions

* `Content.Fails` — the values that scalars write and that cannot be made
* `Node.scalars` — the scalars of a node that are given values
* `WritesBad` — a text writes a value that cannot be made

## Main results

* `Content.makes_ofScalar` — one scalar
* `Node.from_build` — a node, by its scalars
* `writesBad_of_read` — a whole document
-/

namespace ModulePins

namespace Yaml

open Except

/-! ### Scalars -/

namespace Content

/-- The values that scalars write and that cannot be made, by the tag of the scalar. -/
inductive Fails : Tag → BadValue → Prop where
  | notTruth (word : String) : Fails .bool (.notTruth word)
  | notInteger (base : ℕ) (digits : String) : Fails .int (.notInteger base digits)
  | tooManyDigits {n : ℕ} (h : Number.maxDigits < n) : Fails .int (.tooManyDigits n)
  | emptyInteger : Fails .int .emptyNumber
  | emptyDouble : Fails .float .emptyNumber
  | notNumber (digits : String) : Fails .float (.notNumber digits)
  | notTimestamp : Fails .timestamp .notTimestamp
  | calendar (f : CalendarFault) : Fails .timestamp (.calendar f)

/-- A value under a tag, or a fault of such values. -/
abbrev Makes {α : Type} (tag : Tag) (x : Except Fault α) : Prop :=
  Ends (fun f => f = .malformed ∨ ∃ b, f = .value b ∧ Fails tag b) (fun _ => True) x

theorem makes_value {α : Type} {tag : Tag} {b : BadValue} (h : Fails tag b) :
    Makes tag (.error (.value b) : Except Fault α) :=
  .inr ⟨b, rfl, h⟩

theorem makes_readInteger (base : ℕ) (s : List Char) : Makes .int (readInteger base s) := by
  unfold readInteger
  dsimp only
  split
  · rename_i hmany
    exact makes_value (.tooManyDigits (by simpa using (Bool.and_eq_true_iff.mp hmany).2))
  · split
    · trivial
    · exact makes_value (.notInteger _ _)

theorem makes_magnitude (s : List Char) : Makes .int (magnitude s) := by
  unfold magnitude
  split
  · exact makes_value .emptyInteger
  · trivial
  · exact makes_readInteger 2 _
  · exact makes_readInteger 16 _
  · exact makes_readInteger 8 _
  · refine ends_ite ?_ (makes_readInteger 10 _)
    exact (ends_mapM (makes_readInteger 10) _).bind fun _ _ => trivial

theorem makes_integer (text : String) : Makes .int (integer text) := by
  have hsigned (s : List Char) : Makes .int (signed s) :=
    ends_ite (makes_value .emptyInteger) trivial
  exact (hsigned _).bind fun r _ => (makes_magnitude r.2).bind fun _ _ => trivial

theorem makes_readDouble (s : List Char) : Makes .float (readDouble s) := by
  unfold readDouble
  split
  · trivial
  · exact makes_value (.notNumber _)

theorem makes_double (text : String) : Makes .float (double text) := by
  have hsigned (s : List Char) : Makes .float (signed s) :=
    ends_ite (makes_value .emptyDouble) trivial
  refine (hsigned _).bind fun ⟨negative, s⟩ _ => ?_
  refine ends_ite trivial (ends_ite trivial (ends_ite ?_ ?_))
  · exact (ends_mapM makes_readDouble _).bind fun _ _ => trivial
  · exact (makes_readDouble _).bind fun _ _ => trivial

theorem makes_ofScalar (tag : Tag) (text : String) : Makes tag (ofScalar tag text) := by
  unfold ofScalar
  split
  · trivial
  · unfold truth
    dsimp only
    split
    · trivial
    · exact makes_value (.notTruth _)
  · exact makes_integer text
  · exact makes_double text
  · trivial
  · unfold bytes
    refine ends_ite ?_ (.inl rfl)
    split
    · trivial
    · exact .inl rfl
  · unfold timestamp
    split
    · exact makes_value .notTimestamp
    all_goals
      split
      · exact makes_value (.calendar _)
      · trivial
  · exact .inl rfl

end Content

/-! ### Nodes -/

namespace Node

mutual

/-- The scalars of a node, each with its tag. A mapping under a tag of scalars stands for the text of
its `=` member. -/
def scalars : Node → List (Tag × String)
  | scalar t text => [(t, text)]
  | sequence _ items => scalarsOfItems items
  | mapping t es => ((text? (mapping t es)).map fun text => (t, text)).toList ++ scalarsOfEntries es

/-- The scalars of the items of a sequence. -/
def scalarsOfItems : List Node → List (Tag × String)
  | [] => []
  | n :: ns => scalars n ++ scalarsOfItems ns

/-- The scalars of the members of a mapping. -/
def scalarsOfEntries : List (Node × Node) → List (Tag × String)
  | [] => []
  | (k, v) :: es => scalars k ++ scalars v ++ scalarsOfEntries es

end

/-- The fault says that the node is malformed, or that one of these scalars has no value. -/
def Owes (ws : List (Tag × String)) (f : Fault) : Prop :=
  f = .malformed ∨ ∃ w ∈ ws, Content.ofScalar w.1 w.2 = .error f

theorem Owes.mono {ws ws' : List (Tag × String)} {f : Fault} (h : ws ⊆ ws') (hf : Owes ws f) :
    Owes ws' f :=
  hf.imp_right fun ⟨w, hw, hw'⟩ => ⟨w, h hw, hw'⟩

end Node

namespace Built

open Node (Owes)

variable {ws ws' : List (Tag × String)} {b k v : Built}

/-- The fault of the value, if it has one, comes from these scalars or from the form. -/
def From (ws : List (Tag × String)) (b : Built) : Prop := ∀ d f, b.fault = some (d, f) → Owes ws f

/-- The same for a key and its value. -/
structure EntryFrom (ws : List (Tag × String)) (e : Built × Built) : Prop where
  key : e.1.From ws
  value : e.2.From ws

theorem From.mono (h : ws ⊆ ws') (hb : b.From ws) : b.From ws' := fun d f hf => (hb d f hf).mono h

theorem EntryFrom.mono {e : Built × Built} (h : ws ⊆ ws') (he : EntryFrom ws e) : EntryFrom ws' e :=
  ⟨he.key.mono h, he.value.mono h⟩

theorem entryFrom_append (hk : k.From ws) (hv : v.From ws') : EntryFrom (ws ++ ws') (k, v) :=
  ⟨hk.mono (List.subset_append_left _ _), hv.mono (List.subset_append_right _ _)⟩

theorem from_refused (depth : ℕ) : (refused depth).From ws := by
  intro d f hf
  cases hf
  exact .inl rfl

theorem from_ofScalar {tag : Tag} {text : String} (h : (tag, text) ∈ ws) :
    (ofScalar (Content.ofScalar tag text)).From ws := by
  intro d f hf
  cases hvalue : Content.ofScalar tag text with
  | ok v =>
    rw [hvalue] at hf
    cases hf
  | error g =>
    rw [hvalue] at hf
    cases hf
    exact .inr ⟨_, h, hvalue⟩

theorem lessDeep_eq_some {a b : Option DeepFault} {x : DeepFault} (h : lessDeep a b = some x) :
    a = some x ∨ b = some x := by
  unfold lessDeep at h
  split at h
  · exact .inr h
  · exact .inl h
  · split at h
    · exact .inr h
    · exact .inl h

theorem inside_eq_some {members : List Built} {d : ℕ} {f : Fault}
    (h : inside members = some (d, f)) : ∃ b ∈ members, ∃ d', b.fault = some (d', f) := by
  have hfold (bs : List Built) (a : Option DeepFault) (x : DeepFault)
      (hx : bs.foldl (fun f b => lessDeep f b.fault) a = some x) :
      a = some x ∨ ∃ b ∈ bs, b.fault = some x := by
    induction bs generalizing a with
    | nil => exact .inl hx
    | cons b bs ih =>
      rcases ih _ hx with hless | ⟨b', hb', hx'⟩
      · rcases lessDeep_eq_some hless with ha | hb
        · exact .inl ha
        · exact .inr ⟨b, List.mem_cons_self, hb⟩
      · exact .inr ⟨b', List.mem_cons_of_mem _ hb', hx'⟩
  obtain ⟨⟨d', f'⟩, hx, heq⟩ := Option.map_eq_some_iff.mp h
  cases heq
  rcases hfold _ _ _ hx with hnone | ⟨b, hb, hb'⟩
  · cases hnone
  · exact ⟨b, hb, d', hb'⟩

theorem from_inside {members : List Built} {value : Value} (h : ∀ b ∈ members, b.From ws) :
    From ws ⟨value, inside members⟩ := by
  intro d f hf
  obtain ⟨b, hb, d', hfault⟩ := inside_eq_some hf
  exact h b hb d' f hfault

theorem From.asKey (h : b.From ws) : b.asKey.From ws := by
  unfold Built.asKey
  split
  · exact h
  · intro d f hf
    rcases lessDeep_eq_some hf with hf | hf
    · exact h d f hf
    · cases hf
      exact .inl rfl

theorem from_members {es : List (Built × Built)} (h : ∀ e ∈ es, EntryFrom ws e) :
    ∀ b ∈ members es, b.From ws := by
  intro b hb
  obtain ⟨e, he, hb⟩ := List.mem_flatMap.mp hb
  rcases List.mem_cons.mp hb with rfl | hb
  · exact (h e he).key.asKey
  · exact List.mem_singleton.mp hb ▸ (h e he).value

theorem from_pairs {items : List (Option (Built × Built))}
    (h : ∀ e, some e ∈ items → EntryFrom ws e) : (pairs items).From ws := by
  refine from_inside fun b hb => ?_
  obtain ⟨item, hitem, hb⟩ := List.mem_flatMap.mp hb
  cases item with
  | none => exact List.mem_singleton.mp hb ▸ from_refused 0
  | some e =>
    rcases List.mem_cons.mp hb with rfl | hb
    · exact (h e hitem).key
    · exact List.mem_singleton.mp hb ▸ (h e hitem).value

end Built

namespace Node

open Built (EntryFrom)

mutual

/-- **A node is given a value** unless its form or one of its scalars forbids it. -/
theorem from_build (n : Node) : n.build.From n.scalars := by
  cases n with
  | scalar t text =>
    rw [build, scalars]
    exact Built.from_ofScalar List.mem_cons_self
  | sequence t items =>
    rw [scalars]
    have hitems := from_buildList items
    have hpairs := from_buildPairs items
    rw [build.eq_def]
    dsimp only
    split
    · exact Built.from_inside hitems
    · exact Built.from_pairs hpairs
    · exact Built.from_pairs hpairs
    · exact Built.from_refused 1
    · exact Built.from_refused 1
    · exact Built.from_refused 0
  | mapping t es =>
    rw [scalars]
    have hentries := from_buildEntries es
    have hmembers := Built.from_members fun e he =>
      (hentries e he).mono (List.subset_append_right
        ((text? (mapping t es)).map fun text => (t, text)).toList (scalarsOfEntries es))
    rw [build.eq_def]
    dsimp only
    split
    · exact Built.from_inside hmembers
    · exact Built.from_inside hmembers
    · exact Built.from_refused 1
    · exact Built.from_refused 1
    · exact Built.from_refused 1
    · split
      · split
        · rename_i text htext
          refine Built.from_ofScalar (List.mem_append_left _ ?_)
          rw [htext]
          exact List.mem_singleton_self _
        · exact Built.from_refused 0
      · exact Built.from_refused 0

theorem from_buildList (ns : List Node) : ∀ b ∈ buildList ns, b.From (scalarsOfItems ns) := by
  cases ns with
  | nil => exact fun b hb => nomatch hb
  | cons n ns =>
    have hfirst := from_build n
    have hrest := from_buildList ns
    rw [buildList, scalarsOfItems]
    intro b hb
    rcases List.mem_cons.mp hb with rfl | hb
    · exact hfirst.mono (List.subset_append_left _ _)
    · exact (hrest b hb).mono (List.subset_append_right _ _)

theorem from_buildEntries (es : List (Node × Node)) :
    ∀ e ∈ buildEntries es, EntryFrom (scalarsOfEntries es) e := by
  match es with
  | [] => exact fun e he => nomatch he
  | (k, v) :: es =>
    have hfirst := Built.entryFrom_append (from_build k) (from_build v)
    have hrest := from_buildEntries es
    rw [buildEntries, scalarsOfEntries]
    intro e he
    rcases List.mem_cons.mp he with rfl | he
    · exact hfirst.mono (List.subset_append_left _ _)
    · exact (hrest e he).mono (List.subset_append_right _ _)

theorem from_buildPairs (ns : List Node) :
    ∀ e, some e ∈ buildPairs ns → EntryFrom (scalarsOfItems ns) e := by
  rw [buildPairs.eq_def]
  split
  · exact fun e he => nomatch he
  · rename_i t k v ns
    have hfirst := Built.entryFrom_append (from_build k) (from_build v)
    have hrest := from_buildPairs ns
    intro e he
    rw [scalarsOfItems, scalars, scalarsOfEntries, scalarsOfEntries, List.append_nil]
    rcases List.mem_cons.mp he with heq | he
    · cases heq
      exact hfirst.mono (List.subset_append_of_subset_left _ (List.subset_append_right _ _))
    · exact (hrest e he).mono (List.subset_append_right _ _)
  · rename_i n ns hne
    have hrest := from_buildPairs ns
    intro e he
    rw [scalarsOfItems]
    rcases List.mem_cons.mp he with heq | he
    · cases heq
    · exact (hrest e he).mono (List.subset_append_right _ _)

end

end Node

/-! ### Documents -/

/-- A text writes a value that cannot be made: behind a token that cannot be read, or as a scalar of
its node. -/
inductive WritesBad (s : List Char) (b : BadValue) : Prop where
  | token (hmem : Token.fault (.value b) ∈ tokens s) (hfails : Token.Fails (.value b))
  | scalar {n : Node} {tag : Tag} {text : String} (hnode : node? s = .ok (some n))
      (hmem : (tag, text) ∈ n.mergeKeys.scalars)
      (hvalue : Content.ofScalar tag text = .error (.value b)) (hfails : Content.Fails tag b)

theorem read_of_node? {s : List Char} {n : Node} (h : node? s = .ok (some n)) :
    read s = match n.mergeKeys.build.fault with
      | some f => .error f.2
      | none => .ok n.mergeKeys.build.value := by
  rw [read, h]
  rfl

/-- **A document is refused for a value** only if it writes one that cannot be made. -/
theorem writesBad_of_read {s : List Char} {b : BadValue} (h : read s = .error (.value b)) :
    WritesBad s b := by
  cases hnode : node? s with
  | error f =>
    rw [read, hnode] at h
    cases h
    rcases blames_of_node? hnode with hf | hmem
    · cases hf
    · exact .token hmem (fails_of_mem_tokens hmem)
  | ok node =>
    cases node with
    | none =>
      rw [read, hnode] at h
      cases h
    | some n =>
      rw [read_of_node? hnode] at h
      cases hfault : n.mergeKeys.build.fault with
      | none =>
        rw [hfault] at h
        cases h
      | some f =>
        rw [hfault] at h
        obtain ⟨d, g⟩ := f
        cases h
        rcases Node.from_build n.mergeKeys d _ hfault with hf | ⟨⟨tag, text⟩, hmem, hvalue⟩
        · cases hf
        · rcases (Content.makes_ofScalar tag text).of_eq_error hvalue with hf | ⟨b', hb, hfails⟩
          · cases hf
          · cases hb
            exact .scalar hnode hmem hvalue hfails

end Yaml

end ModulePins
