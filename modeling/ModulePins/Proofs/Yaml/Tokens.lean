import Mathlib.Data.List.InsertIdx
import ModulePins.Proofs.Except
import ModulePins.Yaml.Token.Lexer

/-!
# Where the tokens of a text end

A text that cannot be cut into tokens to its end has a fault there. Nearly all of these say that the
text is not well-formed; a few are values that cannot be made, and `Token.Fails` lists them: a
version directive can have a number with too many digits, and an escape between double quotes a code
that is no character. No other token can be a value that cannot be made, since the texts of scalars
are only looked at when the document is whole.

Each reader gets one lemma. `Reads` is for the readers of characters, `Cuts` for those that return a
token, and `Moves` for the steps of the lexer, whose tokens so far hold no fault.

## Main definitions

* `Token.Fails` — the faults of texts that are not cut into tokens

## Main results

* `Lexer.moves_token` — one token, by the character that it starts with
* `fails_of_mem_tokens` — the faults among the tokens of a text
-/

namespace ModulePins

namespace Yaml

open Except

/-- The faults of texts that are not cut into tokens. -/
inductive Token.Fails : Fault → Prop where
  | malformed : Fails .malformed
  | tooManyDigits {n : ℕ} (h : 4300 < n) : Fails (.value (.tooManyDigits n))
  | noCharacter : Fails (.value .noCharacter)
  | hugeCharacter : Fails (.value .hugeCharacter)

/-- A reader of characters that fails as tokens do. -/
abbrev Reads {α : Type} (x : Except Fault α) : Prop := Ends Token.Fails (fun _ => True) x

/-- A reader of a token that fails as tokens do. -/
abbrev Cuts (x : Except Fault (Token × List Char)) : Prop :=
  Ends Token.Fails (fun r => ∀ f, r.1 ≠ .fault f) x

namespace Token

/-! ### Words -/

theorem reads_readRun (p : Char → Bool) (s : List Char) : Reads (readRun p s) :=
  ends_ite .malformed trivial

theorem reads_skipLineEnd (s : List Char) : Reads (skipLineEnd s) := by
  unfold skipLineEnd
  dsimp only
  split
  · trivial
  · exact ends_ite trivial .malformed

theorem reads_readEscapedBytes (s : List Char) : Reads (readEscapedBytes s) := by
  fun_induction readEscapedBytes s with
  | case1 a b s x y hx hy ih => exact ih.bind fun _ _ => trivial
  | case4 s h h' => trivial
  | _ => exact .malformed

theorem reads_readUri (s : List Char) : Reads (readUri s) := by
  fun_induction readUri s with
  | case1 => trivial
  | case2 s e he => exact (reads_readEscapedBytes ('%' :: s)).of_eq_error he
  | case3 => exact .malformed
  | case4 _ _ _ _ _ _ _ ih => exact ih.bind fun _ _ => trivial
  | case5 => exact .malformed
  | case6 _ _ _ _ ih => exact ih.bind fun _ _ => trivial
  | case7 => trivial

theorem reads_readUri1 (s : List Char) : Reads (readUri1 s) :=
  (reads_readUri s).bind fun _ _ => ends_ite .malformed trivial

theorem reads_readHandle (s : List Char) : Reads (readHandle s) := by
  unfold readHandle
  split
  · refine ends_ite trivial ?_
    dsimp only
    split
    · trivial
    · exact .malformed
  · exact .malformed

theorem reads_readVersionNumber (s : List Char) : Reads (readVersionNumber s) := by
  refine (reads_readRun _ s).bind fun ⟨ds, r⟩ _ => ?_
  dsimp only
  split
  · rename_i hmany
    exact .tooManyDigits hmany
  · trivial

theorem cuts_readDirective (s : List Char) : Cuts (readDirective s) := by
  have hline (d : Directive) (r : List Char) :
      Cuts (do return (Token.directive d, ← skipLineEnd r)) :=
    (reads_skipLineEnd r).bind fun _ _ => nofun
  refine (reads_readRun _ s).bind fun ⟨name, r⟩ _ => ends_ite .malformed ?_
  dsimp only
  refine ends_ite ?_ (ends_ite ?_ (hline _ _))
  · refine (reads_readVersionNumber _).bind fun ⟨major, r⟩ _ => ?_
    dsimp only
    split
    · exact (reads_readVersionNumber _).bind fun _ _ => ends_ite (hline _ _) .malformed
    · exact .malformed
  · refine (reads_readHandle _).bind fun ⟨handle, r⟩ _ => ends_ite .malformed ?_
    exact (reads_readUri1 _).bind fun _ _ => ends_ite (hline _ _) .malformed

theorem reads_readName (s : List Char) : Reads (readName s) := by
  refine (reads_readRun _ s).bind fun ⟨name, r⟩ _ => ?_
  dsimp only
  split <;> exact ends_ite trivial .malformed

theorem cuts_readTag (s : List Char) : Cuts (readTag s) := by
  have hend (handle : Option String) (suffix : String) (r : List Char) :
      Cuts (if endsWord r.head? then pure (Token.tag handle suffix, r) else malformed) :=
    ends_ite nofun .malformed
  unfold readTag
  refine ends_ite ?_ (ends_ite (hend _ _ _) (ends_ite ?_ ?_))
  · refine (reads_readUri1 _).bind fun ⟨uri, r⟩ _ => ?_
    dsimp only
    split
    · exact hend _ _ _
    · exact .malformed
  · exact (reads_readHandle _).bind fun _ _ => (reads_readUri1 _).bind fun _ _ => hend _ _ _
  · exact (reads_readUri1 _).bind fun _ _ => hend _ _ _

/-! ### Quoted scalars -/

theorem reads_charOfCode (code : ℕ) : Reads (charOfCode code) :=
  ends_ite .hugeCharacter (ends_ite .noCharacter (ends_ite trivial trivial))

theorem reads_readBreaks (lineStart : Bool) (breaks s : List Char) :
    Reads (readBreaks lineStart breaks s) := by
  fun_induction readBreaks lineStart breaks s with
  | case1 => exact .malformed
  | case2 => trivial
  | case3 _ _ _ _ _ _ ih => exact ih
  | case4 _ _ _ _ _ _ _ ih => exact ih
  | case5 => trivial

theorem reads_readEscape (s : List Char) : Reads (readEscape s) := by
  unfold readEscape
  split
  · exact .malformed
  · split
    · trivial
    · dsimp only
      split
      · exact ends_ite ((reads_charOfCode _).bind fun _ _ => trivial) .malformed
      · exact .malformed
    · exact ends_ite (reads_readBreaks _ _ _) .malformed

theorem reads_readPiece (double : Bool) (s : List Char) : Reads (readPiece double s) := by
  unfold readPiece
  dsimp only
  split
  · exact .malformed
  · refine ends_ite ?_ (ends_ite ?_ (ends_ite ?_ trivial))
    · split <;> trivial
    · split
      · exact .malformed
      · exact ends_ite ((reads_readBreaks _ _ _).bind fun _ _ => trivial) trivial
    · exact (reads_readEscape _).bind fun _ _ => trivial

theorem reads_readQuoted (double : Bool) (s : List Char) : Reads (readQuoted double s) := by
  fun_induction readQuoted double s with
  | case1 s e he => exact (reads_readPiece double s).of_eq_error he
  | case2 => trivial
  | case3 _ _ _ _ _ ih => exact ih.bind fun _ _ => trivial
  | case4 => exact .malformed

end Token

/-! ### Block scalars -/

namespace Block

theorem reads_readHeader (s : List Char) : Reads (readHeader s) := by
  have hend (h : Header) (r : List Char) :
      Reads (if endsWord r.head? then do return (h, ← Token.skipLineEnd r) else Token.malformed) :=
    ends_ite ((Token.reads_skipLineEnd r).bind fun _ _ => trivial) .malformed
  unfold readHeader
  extract_lets chomp indent
  have hindent (s : List Char) : Reads (indent s) := by
    unfold indent
    split
    · split
      · trivial
      · exact .malformed
      · trivial
    · trivial
  split
  · exact (hindent _).bind fun _ _ => hend _ _
  · refine (hindent _).bind fun q _ => ?_
    obtain ⟨i, r⟩ := q
    dsimp only
    split <;> exact hend _ _

theorem reads_read (folded : Bool) (parent : Int) (s : List Char) : Reads (read folded parent s) := by
  refine (reads_readHeader s).bind fun ⟨h, r⟩ _ => ?_
  dsimp only
  split <;> trivial

end Block

/-! ### The lexer -/

namespace Lexer

variable {l l' : Lexer} {t : Token} {n : ℕ}

/-- The tokens so far hold no fault. -/
structure Clean (l : Lexer) : Prop where
  not_mem : ∀ f, Token.fault f ∉ l.back

/-- A step of the lexer that fails as tokens do. -/
abbrev Moves (x : Except Fault Lexer) : Prop := Ends Token.Fails Clean x

theorem Clean.of_back (h : l.Clean) (hback : l'.back = l.back) : l'.Clean :=
  ⟨fun f => hback ▸ h.not_mem f⟩

theorem Clean.allow (h : l.Clean) (keyAllowed : Bool) : Clean { l with keyAllowed } :=
  h.of_back rfl

theorem Clean.cons (h : l.Clean) (hback : l'.back = t :: l.back) (ht : ∀ f, t ≠ .fault f) :
    l'.Clean := by
  refine ⟨fun f hf => ?_⟩
  rw [hback, List.mem_cons] at hf
  rcases hf with rfl | hf
  · exact ht f rfl
  · exact h.not_mem f hf

theorem Clean.insert (h : l.Clean) (ht : ∀ f, t ≠ .fault f) : (l.insert n t).Clean := by
  refine ⟨fun f hf => ?_⟩
  rcases List.eq_or_mem_of_mem_insertIdx hf with rfl | hf
  · exact ht f rfl
  · exact h.not_mem f hf

theorem not_mem_unwindFrom {column indent : Int} {back : List Token} {outer : List Int} {f : Fault}
    (h : Token.fault f ∉ back) : Token.fault f ∉ (unwindFrom column back indent outer).1 := by
  induction outer generalizing back indent with
  | nil => rwa [unwindFrom]
  | cons o outer ih =>
    rw [unwindFrom]
    split
    · exact ih (by simpa using h)
    · exact h

theorem Clean.unwind (h : l.Clean) (column : Int) : (l.unwind column).Clean := by
  rw [Lexer.unwind]
  split
  · exact ⟨fun f => not_mem_unwindFrom (h.not_mem f)⟩
  · exact h

theorem moves_dropStale (h : l.Clean) : Moves l.dropStale :=
  ends_ite .malformed (h.of_back rfl)

theorem moves_dropPending (h : l.Clean) : Moves l.dropPending := by
  rw [dropPending]
  split
  · exact ends_ite .malformed (h.of_back rfl)
  · exact h

theorem moves_savePending (h : l.Clean) : Moves l.savePending :=
  ends_ite ((moves_dropPending h).bind fun _ hl => hl.of_back rfl) h

theorem moves_atMargin (h : l.Clean) : Moves l.atMargin :=
  (moves_dropPending (h.unwind _)).bind fun _ hl => hl.of_back rfl

theorem moves_openFlow (h : l.Clean) (ht : ∀ f, t ≠ .fault f) : Moves (l.openFlow t) :=
  (moves_savePending h).bind fun _ hl => hl.cons rfl ht

theorem moves_closeFlow (h : l.Clean) (ht : ∀ f, t ≠ .fault f) : Moves (l.closeFlow t) :=
  (moves_dropPending h).bind fun _ hl => hl.cons rfl ht

theorem Clean.openBlock (h : l.Clean) (column : ℕ) : (l.openBlock column).2.Clean := by
  rw [Lexer.openBlock]
  split <;> exact h.of_back rfl

theorem moves_openHere (h : l.Clean) (ht : ∀ f, t ≠ .fault f) : Moves (l.openHere t) := by
  have hopen := h.openBlock l.cursor.column
  refine ends_ite (ends_ite ?_ .malformed) h
  generalize l.openBlock l.cursor.column = o at hopen
  obtain ⟨opened, l'⟩ := o
  cases opened with
  | true => exact hopen.cons rfl ht
  | false => exact hopen

theorem moves_blockEntry (h : l.Clean) : Moves l.blockEntry := by
  refine (moves_openHere (t := .blockSequenceStart) h nofun).bind fun _ hl => ?_
  exact (moves_dropPending (hl.allow _)).bind fun _ hl' => hl'.cons rfl nofun

theorem moves_explicitKey (h : l.Clean) : Moves l.explicitKey := by
  refine (moves_openHere (t := .blockMappingStart) h nofun).bind fun _ hl => ?_
  exact (moves_dropPending (hl.allow _)).bind fun _ hl' => hl'.cons rfl nofun

theorem moves_valueMark (h : l.Clean) : Moves l.valueMark := by
  rw [valueMark]
  split
  · rename_i k hk
    extract_lets l₁ l₂ l₃
    have hkey : l₂.Clean := Clean.insert (l := l₁) (h.of_back rfl) nofun
    have hblock := hkey.openBlock k.column
    refine Clean.cons (l := l₃) ?_ rfl nofun
    unfold l₃
    split
    · generalize l₂.openBlock k.column = o at hblock
      obtain ⟨opened, l'⟩ := o
      cases opened with
      | true => exact hblock.insert nofun
      | false => exact hblock
    · exact hkey
  · refine (moves_openHere (t := .blockMappingStart) h nofun).bind fun _ hl => ?_
    exact (moves_dropPending (hl.allow _)).bind fun _ hl' => hl'.cons rfl nofun

theorem moves_inlineToken {read : List Char → Except Fault (Token × List Char)} (h : l.Clean)
    (hread : ∀ s, Cuts (read s)) : Moves (l.inlineToken read) :=
  (moves_savePending h).bind fun _ hl => (hread _).bind fun _ ht => hl.cons rfl ht

theorem moves_blockScalar (h : l.Clean) (folded : Bool) : Moves (l.blockScalar folded) := by
  refine (moves_dropPending (h.allow _)).bind fun _ hl => ?_
  exact (Block.reads_read _ _ _).bind fun _ _ => hl.cons rfl nofun

theorem moves_plainScalar (h : l.Clean) : Moves l.plainScalar :=
  (moves_savePending h).bind fun _ hl => hl.cons rfl nofun

theorem cuts_quotedScalar (double : Bool) (s : List Char) : Cuts (quotedScalar double s) :=
  (Token.reads_readQuoted double s).bind fun _ _ => nofun

theorem cuts_named {make : String → Token} (hmake : ∀ name f, make name ≠ .fault f)
    (s : List Char) : Cuts (named make s) :=
  (Token.reads_readName s).bind fun _ _ => hmake _

/-- **One token**, by the character that it starts with. -/
theorem moves_token (h : l.Clean) (ch : Char) : Moves (l.token ch) := by
  refine ends_ite ((moves_atMargin h).bind fun _ hl => ?_) ?_
  · exact (Token.cuts_readDirective _).bind fun _ ht => hl.cons rfl ht
  refine ends_ite ((moves_atMargin h).bind fun _ hl => hl.cons rfl ?_) ?_
  · split <;> exact nofun
  refine ends_ite (moves_openFlow h nofun) ?_
  refine ends_ite (moves_openFlow h nofun) ?_
  refine ends_ite (moves_closeFlow h nofun) ?_
  refine ends_ite (moves_closeFlow h nofun) ?_
  refine ends_ite ((moves_dropPending (h.allow _)).bind fun _ hl => hl.cons rfl nofun) ?_
  refine ends_ite (moves_blockEntry h) ?_
  refine ends_ite (moves_explicitKey h) ?_
  refine ends_ite (moves_valueMark h) ?_
  refine ends_ite (moves_inlineToken h (cuts_named nofun)) ?_
  refine ends_ite (moves_inlineToken h (cuts_named nofun)) ?_
  refine ends_ite (moves_inlineToken h Token.cuts_readTag) ?_
  refine ends_ite (moves_blockScalar h _) ?_
  refine ends_ite (moves_inlineToken h (cuts_quotedScalar _)) ?_
  exact ends_ite (moves_plainScalar h) .malformed

theorem moves_step (h : l.Clean) : Ends Token.Fails (fun r => r.1.Clean) l.step := by
  refine (moves_dropStale (l := l.skipToToken) (h.of_back rfl)).bind fun l₁ h₁ => ?_
  dsimp only
  split
  · refine (moves_dropPending ((h₁.unwind _).unwind _)).bind fun l₂ h₂ => h₂
  · exact (moves_token (h₁.unwind _) _).bind fun l₂ h₂ => h₂

/-- The faults among the tokens of a run are those that tokens have. -/
theorem fails_of_mem_run (h : l.Clean) {f : Fault} (hf : Token.fault f ∈ l.run) :
    Token.Fails f := by
  have hcertain {g : Fault} (l : Lexer) (hl : l.Clean) (hg : Token.Fails g)
      (hmem : Token.fault f ∈ l.certain ++ [.fault g]) : Token.Fails f := by
    rcases List.mem_append.mp hmem with hmem | hmem
    · exact absurd (List.mem_reverse.mp (List.mem_of_mem_take hmem)) (hl.not_mem f)
    · cases List.mem_singleton.mp hmem
      exact hg
  fun_induction run l with
  | case1 l g hg => exact hcertain l h ((moves_step h).of_eq_error hg) hf
  | case2 l l' hl' =>
    exact absurd (List.mem_reverse.mp hf) (((moves_step h).of_eq_ok hl').not_mem f)
  | case3 l l' hl' _ ih => exact ih ((moves_step h).of_eq_ok hl') hf
  | case4 l l' hl' _ => exact hcertain l h .malformed hf

end Lexer

/-- **The faults among the tokens of a text.** -/
theorem fails_of_mem_tokens {s : List Char} {f : Fault} (hf : Token.fault f ∈ tokens s) :
    Token.Fails f :=
  Lexer.fails_of_mem_run ⟨fun _ => List.not_mem_nil⟩ hf

end Yaml

end ModulePins
