import ModulePins.Proofs.Yaml.Tokens
import ModulePins.Yaml.Node.Parser

/-!
# What tokens are refused for

Where the grammar of documents refuses tokens, it does so because they are in the wrong place, or
because it came to the fault that the list of tokens was cut off with. So the grammar adds no faults
of its own but that the text is not well-formed. The readers of the grammar call each other; what
they leave of the tokens is part of what they were given, and this is what carries the induction.

## Main definitions

* `Node.Blames` — a fault that tokens are refused for
* `Node.Keeps` — a reader that fails for such a fault, and leaves some of its tokens

## Main results

* `Node.keeps_parse` — one node
* `blames_of_node?` — a whole text
-/

namespace ModulePins

namespace Yaml

open Except

namespace Node

variable {α : Type} {bound : ℕ} {ts ts' : List Token} {f : Fault}

/-- The fault says that the tokens are not well-formed, or it is one of them. -/
def Blames (ts : List Token) (f : Fault) : Prop := f = .malformed ∨ Token.fault f ∈ ts

theorem Blames.mono (h : ts ⊆ ts') (hf : Blames ts f) : Blames ts' f := hf.imp_right fun hm => h hm

/-- A reader of tokens that fails for a reason of theirs, and leaves some of them. -/
abbrev Keeps (ts : List Token) (x : Except Fault (Parsed α bound)) : Prop :=
  Ends (Blames ts) (fun q => q.rest ⊆ ts) x

/-- A check of tokens that fails for a reason of theirs. -/
abbrev Passes (ts : List Token) (x : Except Fault α) : Prop := Ends (Blames ts) (fun _ => True) x

theorem Keeps.mono {x : Except Fault (Parsed α bound)} (h : ts ⊆ ts') (hx : Keeps ts x) :
    Keeps ts' x :=
  Ends.imp (fun _ => Blames.mono h) (fun _ hq => List.Subset.trans hq h) hx

theorem ends_misplaced {Q : α → Prop} (h : ts ⊆ ts') : Ends (Blames ts') Q (misplaced ts) := by
  unfold misplaced
  split
  · exact .inr (h List.mem_cons_self)
  · exact .inl rfl

theorem passes_certain (h : ts ⊆ ts') : Passes ts' (certain ts) := by
  unfold certain
  split
  · exact .inr (h List.mem_cons_self)
  · trivial

theorem properties_subset (ts : List Token) : (properties ts).2.1 ⊆ ts := by
  unfold properties
  split
  · exact fun t ht => List.mem_cons_of_mem _ (List.mem_cons_of_mem _ ht)
  · exact fun t ht => List.mem_cons_of_mem _ (List.mem_cons_of_mem _ ht)
  · exact List.subset_cons_self _ _
  · exact List.subset_cons_self _ _
  · exact List.Subset.refl _

theorem passes_fullTag (handles : Handles) (tag : Option (Option String × String)) :
    Passes ts (fullTag handles tag) := by
  unfold fullTag
  split
  · trivial
  · trivial
  · split
    · trivial
    · exact .inl rfl

theorem passes_register (anchors : Anchors) (anchor : Option String) (n : Node) :
    Passes ts (register anchors anchor n) := by
  unfold register
  split
  · trivial
  · exact ends_ite (.inl rfl) trivial

theorem Opening.subset_of_find? {place : Place} {r : List Token} {o : Opening}
    (h : find? place ts = some (o, r)) : r ⊆ ts := by
  unfold find? at h
  split at h <;> (try split at h) <;> cases h <;> exact List.subset_cons_self _ _

theorem ends_separated (first : Bool) (ts : List Token) :
    Ends (Blames ts) (fun r => r.1 ⊆ ts) (separated first ts) := by
  unfold separated
  refine ends_ite (List.Subset.refl _) ?_
  split
  · exact List.subset_cons_self _ _
  · exact ends_misplaced (List.Subset.refl _)

mutual

theorem keeps_parse (handles : Handles) (place : Place) (anchors : Anchors) (ts : List Token) :
    Keeps ts (parse handles place anchors ts) := by
  rw [parse.eq_def]
  split
  · split
    · exact List.subset_cons_self _ _
    · exact .inl rfl
  · have hsub := properties_subset ts
    generalize properties ts = ps at hsub ⊢
    obtain ⟨p, body, hle⟩ := ps
    dsimp only at hsub ⊢
    refine (passes_fullTag handles _).bind fun uri _ => ?_
    split
    · rename_i o r hopen
      have hlength := Opening.length_of_find? hopen
      refine (passes_register _ _ _).bind fun opened _ => ?_
      exact ((keeps_collection handles _ o opened r).mono
        (List.Subset.trans (Opening.subset_of_find? hopen) hsub)).bind fun q hq => hq
    · split
      · exact (passes_register _ _ _).bind fun _ _ => List.subset_of_cons_subset hsub
      · split
        · refine (passes_certain hsub).bind fun _ _ => ?_
          exact (passes_register _ _ _).bind fun _ _ => hsub
        · exact ends_misplaced hsub
  termination_by 4 * ts.length + 0

theorem keeps_collection (handles : Handles) (tag : Tag) (o : Opening) (anchors : Anchors)
    (ts : List Token) : Keeps ts (collection handles tag o anchors ts) := by
  rw [collection.eq_def]
  cases o with
  | flowSequence => exact (keeps_flowSequence handles true anchors ts).bind fun q hq => hq
  | flowMapping => exact (keeps_flowMapping handles true anchors ts).bind fun q hq => hq
  | blockSequence => exact (keeps_blockSequence handles anchors ts).bind fun q hq => hq
  | blockMapping => exact (keeps_blockMapping handles anchors ts).bind fun q hq => hq
  | flatSequence => exact (keeps_flatSequence handles anchors ts).bind fun q hq => hq
  termination_by 4 * ts.length + 3

theorem keeps_optional (handles : Handles) (isAbsent : List Token → Bool) (place : Place)
    (anchors : Anchors) (ts : List Token) :
    Keeps ts (optional handles isAbsent place anchors ts) := by
  rw [optional.eq_def]
  refine ends_ite (List.Subset.refl _) ?_
  exact (keeps_parse handles place anchors ts).bind fun q hq => hq
  termination_by 4 * ts.length + 1

theorem keeps_markedValue (handles : Handles) (isAbsent : List Token → Bool) (place : Place)
    (anchors : Anchors) (ts : List Token) :
    Keeps ts (markedValue handles isAbsent place anchors ts) := by
  rw [markedValue.eq_def]
  split
  · rename_i r
    exact ((keeps_optional handles isAbsent place anchors r).mono
      (List.subset_cons_self _ _)).bind fun q hq => hq
  · exact (passes_certain (List.Subset.refl _)).bind fun _ _ => List.Subset.refl _
  termination_by 4 * ts.length + 1

theorem keeps_blockSequence (handles : Handles) (anchors : Anchors) (ts : List Token) :
    Keeps ts (blockSequence handles anchors ts) := by
  rw [blockSequence.eq_def]
  split
  · rename_i r
    refine ((keeps_optional handles entryAbsent .block anchors r).mono
      (List.subset_cons_self _ _)).bind fun n hn => ?_
    have hshorter := n.shorter
    exact ((keeps_blockSequence handles n.anchors n.rest).mono hn).bind fun q hq => hq
  · exact List.subset_cons_self _ _
  · exact ends_misplaced (List.Subset.refl _)
  termination_by 4 * ts.length + 2

theorem keeps_flatSequence (handles : Handles) (anchors : Anchors) (ts : List Token) :
    Keeps ts (flatSequence handles anchors ts) := by
  rw [flatSequence.eq_def]
  refine (keeps_optional handles _ .block anchors ts).bind fun n hn => ?_
  have hshorter := n.shorter
  dsimp only
  split
  · rename_i r hr
    have hr' : r ⊆ ts := List.subset_of_cons_subset (hr ▸ hn)
    have hlength : r.length + 1 = n.rest.length := (congrArg List.length hr).symm
    exact ((keeps_flatSequence handles n.anchors r).mono hr').bind fun q hq => hq
  · exact (passes_certain hn).bind fun _ _ => hn
  termination_by 4 * ts.length + 2

theorem keeps_blockMapping (handles : Handles) (anchors : Anchors) (ts : List Token) :
    Keeps ts (blockMapping handles anchors ts) := by
  rw [blockMapping.eq_def]
  split
  · rename_i r
    refine ((keeps_optional handles blockAbsent .member anchors r).mono
      (List.subset_cons_self _ _)).bind fun k hk => ?_
    have hshorter := k.shorter
    refine ((keeps_markedValue handles blockAbsent .member k.anchors k.rest).mono hk).bind
      fun v hv => ?_
    have hshorter' := v.shorter
    exact ((keeps_blockMapping handles v.anchors v.rest).mono hv).bind fun q hq => hq
  · exact List.subset_cons_self _ _
  · exact ends_misplaced (List.Subset.refl _)
  termination_by 4 * ts.length + 2
  decreasing_by all_goals subst_vars; simp only [List.length_cons] at *; omega

theorem keeps_flowSequence (handles : Handles) (first : Bool) (anchors : Anchors)
    (ts : List Token) : Keeps ts (flowSequence handles first anchors ts) := by
  rw [flowSequence.eq_def]
  split
  · exact List.subset_cons_self _ _
  · refine (ends_separated first ts).bind fun ⟨body, hle⟩ hbody => ?_
    dsimp only at hbody ⊢
    split
    · exact List.subset_of_cons_subset hbody
    · rename_i r hle'
      have hlength : r.length + 1 ≤ ts.length := hle'
      refine ((keeps_optional handles _ .flow anchors r).mono
        (List.subset_of_cons_subset hbody)).bind fun k hk => ?_
      have hshorter := k.shorter
      refine ((keeps_markedValue handles _ .flow k.anchors k.rest).mono hk).bind fun v hv => ?_
      have hshorter' := v.shorter
      exact ((keeps_flowSequence handles false v.anchors v.rest).mono hv).bind fun q hq => hq
    · refine ((keeps_parse handles .flow anchors body).mono hbody).bind fun n hn => ?_
      have hshorter := n.shorter
      exact ((keeps_flowSequence handles false n.anchors n.rest).mono hn).bind fun q hq => hq
  termination_by 4 * ts.length + 2

theorem keeps_flowMapping (handles : Handles) (first : Bool) (anchors : Anchors)
    (ts : List Token) : Keeps ts (flowMapping handles first anchors ts) := by
  rw [flowMapping.eq_def]
  split
  · exact List.subset_cons_self _ _
  · refine (ends_separated first ts).bind fun ⟨body, hle⟩ hbody => ?_
    dsimp only at hbody ⊢
    split
    · exact List.subset_of_cons_subset hbody
    · rename_i r hle'
      have hlength : r.length + 1 ≤ ts.length := hle'
      refine ((keeps_optional handles _ .flow anchors r).mono
        (List.subset_of_cons_subset hbody)).bind fun k hk => ?_
      have hshorter := k.shorter
      refine ((keeps_markedValue handles _ .flow k.anchors k.rest).mono hk).bind fun v hv => ?_
      have hshorter' := v.shorter
      exact ((keeps_flowMapping handles false v.anchors v.rest).mono hv).bind fun q hq => hq
    · refine ((keeps_parse handles .flow anchors body).mono hbody).bind fun n hn => ?_
      have hshorter := n.shorter
      exact ((keeps_flowMapping handles false n.anchors n.rest).mono hn).bind fun q hq => hq
  termination_by 4 * ts.length + 2

end

end Node

/-! ### Documents -/

open Node (Blames Passes Keeps)

variable {ts : List Token} {f : Fault}

theorem ends_directives (p : Prologue) (ts : List Token) :
    Ends (Blames ts) (fun r => r.2 ⊆ ts) (directives p ts) := by
  have hmore {t : Token} {r : List Token} {x : Except Fault (Handles × List Token)}
      (h : Ends (Blames r) (fun q => q.2 ⊆ r) x) :
      Ends (Blames (t :: r)) (fun q => q.2 ⊆ t :: r) x :=
    h.imp (fun _ => Blames.mono (List.subset_cons_self _ _))
      fun _ hq => List.subset_cons_of_subset _ hq
  fun_induction directives p ts with
  | case1 => exact .inl rfl
  | case2 _ _ _ _ _ ih => exact hmore ih
  | case3 => exact .inl rfl
  | case4 _ _ _ _ _ ih => exact hmore ih
  | case5 _ _ _ ih => exact hmore ih
  | case6 => exact List.Subset.refl _

theorem ends_markedDocument (ts : List Token) :
    Ends (Blames ts) (fun r => r.2 ⊆ ts) (markedDocument ts) := by
  refine (ends_directives _ ts).bind fun ⟨handles, r⟩ hr => ?_
  dsimp only at hr ⊢
  split
  · rename_i r'
    have hr' : r' ⊆ ts := List.subset_of_cons_subset hr
    split
    any_goals exact hr'
    exact ((Node.keeps_parse handles .block [] r').mono hr').bind fun q hq => hq
  · exact Node.ends_misplaced hr

theorem passes_noMore (ts : List Token) : Passes ts (noMore ts) := by
  have hsub : ts.dropWhile (· = .documentEnd) ⊆ ts := (List.dropWhile_suffix _).subset
  unfold noMore
  split
  · trivial
  · refine ((ends_directives _ _).imp (fun _ => Blames.mono hsub) fun _ h => h).bind
      fun ⟨handles, r⟩ hr => ?_
    exact Node.ends_misplaced (List.Subset.trans hr hsub)

/-- **A text without a node** is not well-formed, or cannot be cut into tokens. -/
theorem blames_of_node? {s : List Char} (h : node? s = .error f) : Blames (tokens s) f := by
  have hrest (n : Node) {r : List Token} (hr : r ⊆ tokens s) :
      Passes (tokens s) (do noMore r; return some n) :=
    ((passes_noMore r).imp (fun _ => Blames.mono hr) fun _ h => h).bind fun _ _ => trivial
  have hends : Passes (tokens s) (node? s) := by
    unfold node?
    refine ends_ite ?_ (.inl rfl)
    generalize tokens s = ts at hrest ⊢
    split
    · trivial
    · dsimp only
      split
      · exact (ends_markedDocument _).bind fun r hr => hrest _ hr
      · exact (ends_markedDocument _).bind fun r hr => hrest _ hr
      · exact (Node.keeps_parse _ _ _ _).bind fun q hq => hrest _ hq
  exact hends.of_eq_error h

end Yaml

end ModulePins
