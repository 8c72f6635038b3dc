import ModulePins.Json.Printer
import ModulePins.Json.Reader
import ModulePins.Proofs.Text.Digits

/-!
# JSON strings

Reading undoes escaping, character by character and for both charsets. The escapes are not all of
one length: a character may be written as itself, as a backslash and a letter, as one UTF-16 unit or
as a surrogate pair. What they share is `readText_escape`: behind the escape of a character the
reader goes on as if it had read the character itself.

Surrogates never stand alone, because a `Char` is a scalar value: `toNat_not_surrogate` is the one
place where that is used.

## Main results

* `Json.readText_escape` — one character
* `Json.printText_append` — a whole text, up to its closing quote
* `Json.not_mem_escape` — line ends and other controls are never written as they are
-/

namespace ModulePins

namespace Json

variable {cs : Charset} {n : ℕ} {c : Char} {s rest : List Char}

/-! ### UTF-16 units -/

/-- Four hexadecimal digits for a UTF-16 unit. -/
theorem escapeUnit_eq (hn : n < 0x10000) :
    ∃ a b c d, escapeUnit n = ['\\', 'u', a, b, c, d] ∧ hex4? a b c d = some n := by
  obtain ⟨a, b, c, d, h, hread⟩ :=
    Text.natDigits_four (b := 16) (by decide) (by decide) (n := n) (by omega)
  exact ⟨a, b, c, d, by rw [escapeUnit, h], hread⟩

/-- The code points of characters leave out the surrogates. -/
theorem toNat_not_surrogate (c : Char) : ¬ (0xd800 ≤ c.toNat ∧ c.toNat < 0xe000) := by
  have h := c.valid
  simp only [UInt32.isValidChar, Nat.isValidChar] at h
  change c.val.toNat < _ ∨ _ at h
  have hc : c.toNat = c.val.toNat := rfl
  omega

theorem toNat_lt (c : Char) : c.toNat < 0x110000 := by
  have h := c.valid
  simp only [UInt32.isValidChar, Nat.isValidChar] at h
  change c.val.toNat < _ ∨ _ at h
  have hc : c.toNat = c.val.toNat := rfl
  omega

theorem readEscape?_unit (hc : c.toNat < 0x10000) :
    ∃ esc, escapeUnit c.toNat = '\\' :: esc ∧
      ∀ s, readEscape? (esc ++ s) = some (c, s) := by
  obtain ⟨a, b, d, e, hesc, hread⟩ := escapeUnit_eq hc
  refine ⟨['u', a, b, d, e], hesc, fun s => ?_⟩
  have hsur := toNat_not_surrogate c
  simp only [List.cons_append, List.nil_append, readEscape?, hread]
  rw [Option.bind_eq_bind, Option.bind_some, if_neg (by omega), charOfUnit?, if_neg hsur]
  simp [Char.ofNat_toNat]

theorem readEscape?_pair (hc : 0x10000 ≤ c.toNat) :
    ∃ esc, escapeUnits c.toNat = '\\' :: esc ∧
      ∀ s, readEscape? (esc ++ s) = some (c, s) := by
  have hmax := toNat_lt c
  obtain ⟨a₁, b₁, c₁, d₁, hhigh, hread₁⟩ :=
    escapeUnit_eq (n := 0xd800 + (c.toNat - 0x10000) / 0x400) (by omega)
  obtain ⟨a₂, b₂, c₂, d₂, hlow, hread₂⟩ :=
    escapeUnit_eq (n := 0xdc00 + (c.toNat - 0x10000) % 0x400) (by omega)
  refine ⟨['u', a₁, b₁, c₁, d₁, '\\', 'u', a₂, b₂, c₂, d₂], ?_, fun s => ?_⟩
  · rw [escapeUnits, if_neg (by omega), hhigh, hlow]
    rfl
  · simp only [List.cons_append, List.nil_append, readEscape?, hread₁, hread₂]
    rw [Option.bind_eq_bind, Option.bind_some, if_pos (by omega), Option.bind_some,
      if_pos (by omega)]
    have hval : 0x10000 + (0xd800 + (c.toNat - 0x10000) / 0x400 - 0xd800) * 0x400 +
        (0xdc00 + (c.toNat - 0x10000) % 0x400 - 0xdc00) = c.toNat := by omega
    rw [hval, Char.ofNat_toNat]
    rfl

/-! ### One character -/

/-- What the reader does behind a backslash. -/
theorem readText_backslash {esc : List Char} (h : ∀ s, readEscape? (esc ++ s) = some (c, s))
    (s : List Char) :
    readText ('\\' :: esc ++ s) = (readText s).map fun p => (c :: p.1, p.2) := by
  rw [List.cons_append, readText, if_neg (by decide), if_pos rfl]
  simp only [h]
  rw [if_pos (by simp)]
  cases readText s <;> rfl

/-- What the reader does at a character that stands for itself. -/
theorem readText_plain (hquote : c ≠ '"') (hback : c ≠ '\\') (hcontrol : ¬ c.toNat < 0x20)
    (s : List Char) : readText (c :: s) = (readText s).map fun p => (c :: p.1, p.2) := by
  rw [readText, if_neg hquote, if_neg hback, if_neg hcontrol]
  cases readText s <;> rfl

/-- What the reader does at a backslash and a letter. -/
theorem readText_letter {e : Char} (he : e ≠ 'u') (h : escapes.lookup e = some c)
    (s : List Char) :
    readText (['\\', e] ++ s) = (readText s).map fun p => (c :: p.1, p.2) := by
  have hread (s : List Char) : readEscape? ([e] ++ s) = some (c, s) := by
    rw [List.singleton_append, readEscape?, h]
    · rfl
    · intro a b d f s' heq
      exact absurd heq he
  exact readText_backslash hread s

/-- **Reading undoes escaping.** Behind the escape of a character the reader goes on as if it had
read the character itself. -/
theorem readText_escape (cs : Charset) (c : Char) (s : List Char) :
    readText (cs.escape c ++ s) = (readText s).map fun p => (c :: p.1, p.2) := by
  rw [Charset.escape]
  split_ifs with hquote hback hn hr ht hb hf hcontrol hascii
  · subst hquote
    exact readText_letter (by decide) (by decide) s
  · subst hback
    exact readText_letter (by decide) (by decide) s
  · subst hn
    exact readText_letter (by decide) (by decide) s
  · subst hr
    exact readText_letter (by decide) (by decide) s
  · subst ht
    exact readText_letter (by decide) (by decide) s
  · subst hb
    exact readText_letter (by decide) (by decide) s
  · subst hf
    exact readText_letter (by decide) (by decide) s
  · obtain ⟨esc, hesc, hread⟩ := readEscape?_unit (c := c) (by omega)
    rw [hesc]
    exact readText_backslash hread s
  · by_cases hwide : c.toNat < 0x10000
    · obtain ⟨esc, hesc, hread⟩ := readEscape?_unit hwide
      rw [escapeUnits, if_pos hwide, hesc]
      exact readText_backslash hread s
    · obtain ⟨esc, hesc, hread⟩ := readEscape?_pair (c := c) (by omega)
      rw [hesc]
      exact readText_backslash hread s
  · exact readText_plain hquote hback hcontrol s

/-! ### Whole texts -/

theorem readText_flatMap_escape (cs : Charset) (text rest : List Char) :
    readText (text.flatMap cs.escape ++ '"' :: rest) = .ok (text, rest) := by
  induction text with
  | nil => rw [List.flatMap_nil, List.nil_append, readText, if_pos rfl]
  | cons c text ih =>
    rw [List.flatMap_cons, List.append_assoc, readText_escape, ih]
    rfl

/-- A printed text is an opening quote and what the reader turns back into the text. -/
theorem printText_append (cs : Charset) (text : String) (rest : List Char) :
    ∃ body, printText cs text ++ rest = '"' :: body ∧ rest.length ≤ body.length ∧
      readText body = .ok (text.toList, rest) := by
  refine ⟨text.toList.flatMap cs.escape ++ '"' :: rest, ?_, ?_, readText_flatMap_escape cs _ rest⟩
  · simp [printText]
  · simp only [List.length_append, List.length_cons]
    omega

/-! ### Controls -/

theorem not_mem_escapeUnit (hcontrol : c.toNat < 0x20) (hn : n < 0x10000) :
    c ∉ escapeUnit n := by
  have hdigit : Text.digitValue? 16 c = none := by
    have key : ∀ k < 0x20, Text.digitValue? 16 (Char.ofNat k) = none := by decide
    simpa [Char.ofNat_toNat] using key _ hcontrol
  obtain ⟨x₁, x₂, x₃, x₄, h, hread⟩ := escapeUnit_eq hn
  rw [h, List.mem_cons, List.mem_cons]
  rintro (rfl | rfl | hmem)
  · exact absurd hcontrol (by decide)
  · exact absurd hcontrol (by decide)
  · rw [hex4?, Text.readNat?_eq_none hmem hdigit] at hread
    cases hread

theorem not_mem_escapeUnits (hcontrol : c.toNat < 0x20) (hn : n < 0x110000) :
    c ∉ escapeUnits n := by
  rw [escapeUnits]
  split
  · exact not_mem_escapeUnit hcontrol ‹_›
  · rw [List.mem_append]
    exact not_or.mpr ⟨not_mem_escapeUnit hcontrol (by omega), not_mem_escapeUnit hcontrol (by omega)⟩

/-- A control is never written as it is. -/
theorem not_mem_escape (hcontrol : c.toNat < 0x20) (cs : Charset) (d : Char) :
    c ∉ cs.escape d := by
  have hplain (x : Char) (hx : ¬ x.toNat < 0x20) : c ≠ x := fun h => hx (h ▸ hcontrol)
  have hletter {e : Char} (he : ¬ e.toNat < 0x20) : c ∉ ['\\', e] := by
    simpa using ⟨hplain '\\' (by decide), hplain e he⟩
  rw [Charset.escape]
  split_ifs with hquote hback hn hr ht hb hf hd hascii
  · exact hletter (by decide)
  · exact hletter (by decide)
  · exact hletter (by decide)
  · exact hletter (by decide)
  · exact hletter (by decide)
  · exact hletter (by decide)
  · exact hletter (by decide)
  · exact not_mem_escapeUnit hcontrol (by omega)
  · exact not_mem_escapeUnits hcontrol (toNat_lt d)
  · simpa using hplain d hd

theorem not_mem_printText (hcontrol : c.toNat < 0x20) (cs : Charset) (text : String) :
    c ∉ printText cs text := by
  have hquote : c ≠ '"' := fun h => absurd (h ▸ hcontrol) (by decide)
  simp only [printText, List.cons_append, List.mem_cons, List.mem_append, List.mem_flatMap,
    List.not_mem_nil, or_false, not_or]
  refine ⟨hquote, ?_, hquote⟩
  rintro ⟨d, -, hmem⟩
  exact not_mem_escape hcontrol cs d hmem

end Json

end ModulePins
