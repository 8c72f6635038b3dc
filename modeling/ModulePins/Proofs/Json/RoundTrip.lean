import ModulePins.Proofs.Json.Numbers
import ModulePins.Proofs.Json.Strings
import ModulePins.Proofs.Keyed

/-!
# Printed JSON is read back

The reader returns the value that was printed, for both charsets and at every level of indentation.
Three kinds of values are left out by `Json.Plain`, because for them it would be false or is a
matter of number formats: floating-point numbers, whole numbers too long to be read, and objects
that name a key twice, of which the reader keeps the last member only.

The reader is a mutual recursion on the text and the printer one on the value. `Yields` is the form
in which the two meet: one lemma for each production of the reader, then one induction over the
value.

## Main results

* `Json.read_print` — reading undoes printing
* `Json.unifyNewlines_print` — a printed value has no other line ends to unify
-/

namespace ModulePins

theorem Text.unifyNewlines_of_not_mem {s : List Char} (h : '\r' ∉ s) : unifyNewlines s = s := by
  induction s with
  | nil => rfl
  | cons c s ih =>
    rw [List.mem_cons, not_or] at h
    rw [unifyNewlines, ih h.2]
    · rintro s' rfl -
      exact h.1 rfl
    · rintro rfl
      exact h.1 rfl

namespace Json

variable {cs : Charset} {level : ℕ} {c : Char} {s r rest : List Char}

mutual

/-- A value without floating-point numbers, oversized whole numbers and repeated keys. -/
def Plain : Json → Prop
  | null | bool _ | str _ => True
  | int i => Number.isReadable i = true
  | float _ => False
  | array items => AllPlain items
  | object members => (members.map Prod.fst).Nodup ∧ MembersPlain members

/-- All of the values are plain. -/
def AllPlain : List Json → Prop
  | [] => True
  | x :: xs => Plain x ∧ AllPlain xs

/-- The values of all members are plain. -/
def MembersPlain : List (String × Json) → Prop
  | [] => True
  | m :: ms => Plain m.2 ∧ MembersPlain ms

end

/-! ### The reader, production by production -/

/-- The reader returns `x` and leaves `rest`. -/
def Yields {α : Type} {bound : ℕ} (p : Except ReadFault (Parsed α bound)) (x : α)
    (rest : List Char) : Prop :=
  ∃ h, p = .ok ⟨x, rest, h⟩

theorem skipSpace_of_not_space (h : isSpace c = false) : skipSpace (c :: s) = c :: s :=
  List.dropWhile_cons_of_neg (by simp [h])

theorem skipSpace_newline (level : ℕ) (s : List Char) :
    skipSpace (newline level ++ s) = skipSpace s := by
  have hblank : ∀ c ∈ newline level, isSpace c = true := by
    intro c hc
    rcases List.mem_cons.mp hc with rfl | hc
    · rfl
    · rw [(List.mem_replicate.mp hc).2]
      rfl
  exact List.dropWhile_append_of_pos hblank

theorem readValue_text {k : List Char} (h : readText s = .ok (k, rest))
    (hlt : rest.length ≤ s.length) : Yields (readValue ('"' :: s)) (.str (String.ofList k)) rest := by
  have hlt' : rest.length < ('"' :: s).length := Nat.lt_succ_of_le hlt
  refine ⟨hlt', ?_⟩
  rw [readValue, h]
  exact dif_pos hlt'

theorem readValue_atom {v : Json} {t : List Char} (h : readAtom (c :: t ++ rest) = .ok (v, rest))
    (hc : c ≠ '"' ∧ c ≠ '[' ∧ c ≠ '{') : Yields (readValue (c :: t ++ rest)) v rest := by
  have hlt : rest.length < (c :: t ++ rest).length := by
    simp only [List.length_append, List.length_cons]
    omega
  refine ⟨hlt, ?_⟩
  rw [readValue, h]
  · exact dif_pos hlt
  · intro r heq
    exact absurd (List.cons.inj heq).1 hc.1
  · intro r heq
    exact absurd (List.cons.inj heq).1 hc.2.1
  · intro r heq
    exact absurd (List.cons.inj heq).1 hc.2.2

theorem readValue_array {xs : List Json} (hs : skipSpace s = r) (hr : ∀ r', r ≠ ']' :: r')
    (h : Yields (readItems r) xs rest) : Yields (readValue ('[' :: s)) (.array xs) rest := by
  subst hs
  obtain ⟨hlt, h⟩ := h
  rw [readValue]
  split
  · rename_i r' heq
    exact absurd heq (hr r')
  · simp only [h]
    exact ⟨_, rfl⟩

theorem readValue_empty_array (rest : List Char) :
    Yields (readValue ('[' :: ']' :: rest)) (.array []) rest := by
  rw [readValue]
  split
  · rename_i r' heq
    cases (skipSpace_of_not_space (by decide)).symm.trans heq
    exact ⟨_, rfl⟩
  · rename_i hnot
    exact absurd (skipSpace_of_not_space (by decide)) (hnot rest)

/-- What stands behind an element: the closing mark, or a comma and more elements. -/
inductive Behind {α : Type} (more : (s : List Char) → Except ReadFault (Parsed (List α) s.length))
    (close : Char) (behind : List Char) : List α → List Char → Prop
  | last {r : List Char} (h : skipSpace behind = close :: r) : Behind more close behind [] r
  | comma {r : List Char} {xs : List α} {rest : List Char} (h : skipSpace behind = ',' :: r)
      (hmore : Yields (more (skipSpace r)) xs rest) : Behind more close behind xs rest

theorem readItems_cons {x : Json} {xs : List Json} {rest' : List Char}
    (h : Yields (readValue s) x rest) (hrest : Behind readItems ']' rest xs rest') :
    Yields (readItems s) (x :: xs) rest' := by
  obtain ⟨hlt, h⟩ := h
  rw [readItems, h]
  simp only [bind, Except.bind]
  cases hrest with
  | last hrest =>
    split
    · rename_i heq
      cases hrest.symm.trans heq
    · rename_i heq
      cases hrest.symm.trans heq
      exact ⟨_, rfl⟩
    · rename_i hnot
      exact absurd hrest (hnot _)
  | comma hrest hmore =>
    obtain ⟨hlt', hmore⟩ := hmore
    split
    · rename_i heq
      cases hrest.symm.trans heq
      simp only [hmore]
      exact ⟨_, rfl⟩
    · rename_i heq
      cases hrest.symm.trans heq
    · rename_i hnot _
      exact absurd hrest (hnot _)

/-- The text `s`, behind an opening quote, starts with the member `m`, and leaves `rest`. -/
structure StartsMember (s : List Char) (m : String × Json) (rest : List Char) : Prop where
  reads : ∃ k behind value, readText s = .ok (k, behind) ∧ behind.length ≤ s.length ∧
    skipSpace behind = ':' :: value ∧ String.ofList k = m.1 ∧
    Yields (readValue (skipSpace value)) m.2 rest

theorem readMembers_cons {m : String × Json} {ms : List (String × Json)} {rest' : List Char}
    (h : StartsMember s m rest) (hrest : Behind readMembers '}' rest ms rest') :
    Yields (readMembers ('"' :: s)) (m :: ms) rest' := by
  obtain ⟨k, behind, value, hk, hlt, hvalue, hkey, hlt', hv⟩ := h.reads
  have hofRest : Parsed.ofRest (s.length + 1) (k, behind) =
      .ok ⟨k, behind, Nat.lt_succ_of_le hlt⟩ := dif_pos (Nat.lt_succ_of_le hlt)
  rw [readMembers, hk]
  simp only [bind, Except.bind, hofRest]
  split
  · rename_i heq
    cases hvalue.symm.trans heq
    simp only [hv]
    cases hrest with
    | last hrest =>
      split
      · rename_i heq'
        cases hrest.symm.trans heq'
      · rename_i heq'
        cases hrest.symm.trans heq'
        simp only [hkey]
        exact ⟨_, rfl⟩
      · rename_i _ hnot
        exact absurd hrest (hnot _)
    | comma hrest hmore =>
      obtain ⟨hlt'', hmore⟩ := hmore
      split
      · rename_i heq'
        cases hrest.symm.trans heq'
        simp only [hmore, hkey]
        exact ⟨_, rfl⟩
      · rename_i heq'
        cases hrest.symm.trans heq'
      · rename_i hnot _
        exact absurd hrest (hnot _)
  · rename_i hnot
    exact absurd hvalue (hnot value)

theorem readValue_object {ms : List (String × Json)} (hs : skipSpace s = r)
    (hr : ∀ r', r ≠ '}' :: r') (h : Yields (readMembers r) ms rest) :
    Yields (readValue ('{' :: s)) (.object (Keyed.collapse (·.1) ms)) rest := by
  subst hs
  obtain ⟨hlt, h⟩ := h
  rw [readValue]
  split
  · rename_i r' heq
    exact absurd heq (hr r')
  · simp only [h]
    exact ⟨_, rfl⟩

theorem readValue_empty_object (rest : List Char) :
    Yields (readValue ('{' :: '}' :: rest)) (.object []) rest := by
  rw [readValue]
  split
  · rename_i r' heq
    cases (skipSpace_of_not_space (by decide)).symm.trans heq
    exact ⟨_, rfl⟩
  · rename_i hnot
    exact absurd (skipSpace_of_not_space (by decide)) (hnot rest)

/-! ### One value -/

/-- A number starts with no mark of another kind of value, and with no blank. -/
theorem ne_of_number (h : c = '-' ∨ c.isDigit = true) :
    isSpace c = false ∧ c ≠ ']' ∧ c ≠ '"' ∧ c ≠ '[' ∧ c ≠ '{' := by
  have hne {d : Char} (hd : (d == '-' || d.isDigit) = false) : c ≠ d := by
    rintro rfl
    rcases h with rfl | h
    · cases hd
    · simp [h] at hd
  have hspace : isSpace c = false := by
    simp [isSpace, hne (d := ' ') (by decide), hne (d := '\t') (by decide),
      hne (d := '\n') (by decide), hne (d := '\r') (by decide)]
  exact ⟨hspace, hne (by decide), hne (by decide), hne (by decide), hne (by decide)⟩

/-- How a printed value starts: not with a blank, and not as the end of an array. -/
theorem printAt_eq_cons (cs : Charset) (level : ℕ) {v : Json} (h : Plain v) :
    ∃ c t, printAt cs level v = c :: t ∧ isSpace c = false ∧ c ≠ ']' := by
  cases v with
  | null => exact ⟨_, _, rfl, by decide, by decide⟩
  | bool b => cases b <;> exact ⟨_, _, rfl, by decide, by decide⟩
  | int i =>
    obtain ⟨c, t, heq, hc⟩ := signed_eq_cons (decide (i < 0)) i.natAbs
    exact ⟨c, t, by rw [printAt, toList_int, heq], (ne_of_number hc).1, (ne_of_number hc).2.1⟩
  | float x => exact h.elim
  | str s => exact ⟨_, _, by rw [printAt, printText, List.cons_append], by decide, by decide⟩
  | array items =>
    cases items with
    | nil => exact ⟨_, _, by rw [printAt], by decide, by decide⟩
    | cons x xs =>
      exact ⟨_, _, by simp only [printAt, List.cons_append]; rfl, by decide, by decide⟩
  | object members =>
    cases members with
    | nil => exact ⟨_, _, by rw [printAt], by decide, by decide⟩
    | cons m ms =>
      exact ⟨_, _, by simp only [printAt, List.cons_append]; rfl, by decide, by decide⟩

theorem skipSpace_printAt {v : Json} (h : Plain v) :
    skipSpace (printAt cs level v ++ s) = printAt cs level v ++ s := by
  obtain ⟨c, t, heq, hc, -⟩ := printAt_eq_cons cs level h
  rw [heq, List.cons_append, skipSpace_of_not_space hc]

theorem stops_printItems (cs : Charset) (level : ℕ) (xs : List Json) (level' : ℕ) (s : List Char) :
    Stops (printItems cs level xs ++ (newline level' ++ s)) := by
  cases xs with
  | nil => exact stops_cons (.inr rfl)
  | cons x xs =>
    rw [printItems]
    exact stops_cons (.inl rfl)

theorem stops_printMembers (cs : Charset) (level : ℕ) (ms : List (String × Json)) (level' : ℕ)
    (s : List Char) :
    Stops (printMembers cs level ms ++ (newline level' ++ s)) := by
  cases ms with
  | nil => exact stops_cons (.inr rfl)
  | cons m ms =>
    rw [printMembers]
    exact stops_cons (.inl rfl)

/-- A printed member, up to its value. -/
theorem startsMember_print {k : String} {v : Json} (hv : Plain v)
    (h : Yields (readValue (printAt cs level v ++ rest)) v rest) :
    ∃ body, printText cs k ++ ([':', ' '] ++ (printAt cs level v ++ rest)) = '"' :: body ∧
      StartsMember body (k, v) rest := by
  obtain ⟨body, heq, hlt, hread⟩ :=
    printText_append cs k ([':', ' '] ++ (printAt cs level v ++ rest))
  refine ⟨body, heq, ⟨_, _, _, hread, hlt, skipSpace_of_not_space (by decide), ?_, ?_⟩⟩
  · exact String.ofList_toList
  · have hskip : skipSpace ([' '] ++ (printAt cs level v ++ rest)) = printAt cs level v ++ rest := by
      rw [List.singleton_append, skipSpace, List.dropWhile_cons_of_pos (by decide)]
      exact skipSpace_printAt hv
    change Yields (readValue (skipSpace ([' '] ++ (printAt cs level v ++ rest)))) v rest
    rwa [hskip]

mutual

/-- **The value that was printed is read**, and what follows it is left. -/
theorem readValue_printAt (cs : Charset) : ∀ (v : Json) (level : ℕ) (rest : List Char), Plain v →
    Stops rest → Yields (readValue (printAt cs level v ++ rest)) v rest
  | null, level, rest, _, _ =>
    readValue_atom (c := 'n') (t := ['u', 'l', 'l']) (readAtom_null rest) (by decide)
  | bool true, level, rest, _, _ =>
    readValue_atom (c := 't') (t := ['r', 'u', 'e']) (readAtom_bool true rest) (by decide)
  | bool false, level, rest, _, _ =>
    readValue_atom (c := 'f') (t := ['a', 'l', 's', 'e']) (readAtom_bool false rest) (by decide)
  | int i, level, rest, h, hrest => by
    obtain ⟨c, t, heq, hc⟩ := signed_eq_cons (decide (i < 0)) i.natAbs
    have hatom := readAtom_int (i := i) h hrest
    rw [toList_int, heq] at hatom
    rw [printAt, toList_int, heq]
    exact readValue_atom hatom (ne_of_number hc).2.2
  | float x, level, rest, h, _ => h.elim
  | str t, level, rest, _, _ => by
    obtain ⟨body, heq, hlt, hread⟩ := printText_append cs t rest
    rw [printAt, heq]
    simpa using readValue_text hread hlt
  | array [], level, rest, _, _ => by
    rw [printAt]
    exact readValue_empty_array rest
  | array (x :: xs), level, rest, ⟨hx, hxs⟩, _ => by
    have hfirst := readValue_printAt cs x (level + 1) _ hx
      (stops_printItems cs (level + 1) xs level (']' :: rest))
    have hitems := readItems_printItems cs xs (level + 1) level rest hxs hfirst
    have heq : printAt cs level (.array (x :: xs)) ++ rest =
        '[' :: (newline (level + 1) ++ (printAt cs (level + 1) x ++
          (printItems cs (level + 1) xs ++ (newline level ++ ']' :: rest)))) := by
      simp [printAt]
    obtain ⟨c, t, hopen, -, hc⟩ := printAt_eq_cons cs (level + 1) hx
    rw [heq]
    refine readValue_array ((skipSpace_newline _ _).trans (skipSpace_printAt hx)) ?_ hitems
    rw [hopen]
    exact fun r h => hc (List.cons.inj h).1
  | object [], level, rest, _, _ => by
    rw [printAt]
    exact readValue_empty_object rest
  | object (m :: ms), level, rest, ⟨hkeys, hm, hms⟩, _ => by
    have hvalue := readValue_printAt cs m.2 (level + 1) _ hm
      (stops_printMembers cs (level + 1) ms level ('}' :: rest))
    obtain ⟨body, hbody, hstarts⟩ := startsMember_print (k := m.1) hm hvalue
    have hmembers := readMembers_printMembers cs ms (level + 1) level rest hms hstarts
    have heq : printAt cs level (.object (m :: ms)) ++ rest =
        '{' :: (newline (level + 1) ++ '"' :: body) := by
      rw [← hbody]
      simp [printAt]
    have hobject := readValue_object (s := newline (level + 1) ++ '"' :: body)
      ((skipSpace_newline _ _).trans (skipSpace_of_not_space (by decide))) (by simp) hmembers
    rw [heq]
    rwa [Keyed.collapse_of_nodup hkeys] at hobject

theorem readItems_printItems (cs : Charset) : ∀ (xs : List Json) (level level' : ℕ)
    (rest : List Char) {s : List Char} {x : Json}, AllPlain xs →
    Yields (readValue s) x (printItems cs level xs ++ (newline level' ++ ']' :: rest)) →
    Yields (readItems s) (x :: xs) rest
  | [], level, level', rest, s, x, _, hx => by
    refine readItems_cons hx (.last ?_)
    rw [printItems, List.nil_append, skipSpace_newline, skipSpace_of_not_space (by decide)]
  | y :: ys, level, level', rest, s, x, ⟨hy, hys⟩, hx => by
    have hnext := readValue_printAt cs y level _ hy
      (stops_printItems cs level ys level' (']' :: rest))
    have hitems := readItems_printItems cs ys level level' rest hys hnext
    rw [← skipSpace_printAt hy, ← skipSpace_newline level] at hitems
    refine readItems_cons hx (.comma ?_ hitems)
    simp only [printItems, List.cons_append, List.append_assoc]
    exact skipSpace_of_not_space (by decide)

theorem readMembers_printMembers (cs : Charset) : ∀ (ms : List (String × Json)) (level level' : ℕ)
    (rest : List Char) {s : List Char} {m : String × Json}, MembersPlain ms →
    StartsMember s m (printMembers cs level ms ++ (newline level' ++ '}' :: rest)) →
    Yields (readMembers ('"' :: s)) (m :: ms) rest
  | [], level, level', rest, s, m, _, hm => by
    refine readMembers_cons hm (.last ?_)
    rw [printMembers, List.nil_append, skipSpace_newline, skipSpace_of_not_space (by decide)]
  | n :: ns, level, level', rest, s, m, ⟨hn, hns⟩, hm => by
    have hvalue := readValue_printAt cs n.2 level _ hn
      (stops_printMembers cs level ns level' ('}' :: rest))
    obtain ⟨body, hbody, hstarts⟩ := startsMember_print (k := n.1) hn hvalue
    have hmembers := readMembers_printMembers cs ns level level' rest hns hstarts
    rw [← skipSpace_of_not_space (c := '"') (s := body) (by decide), ← hbody,
      ← skipSpace_newline level] at hmembers
    refine readMembers_cons hm (.comma ?_ hmembers)
    simp only [printMembers, List.cons_append, List.nil_append, List.append_assoc]
    exact skipSpace_of_not_space (by decide)

end

/-- **Reading undoes printing.** -/
theorem read_print {v : Json} (h : Plain v) : read (v.print cs) = .ok v := by
  obtain ⟨hlt, hread⟩ := readValue_printAt cs v 0 [] h stops_nil
  have hskip : skipSpace (v.print cs) = printAt cs 0 v ++ [] := by
    rw [← skipSpace_printAt h, List.append_nil, print]
  rw [read, hskip, hread]
  rfl

/-! ### Line ends -/

theorem ne_of_control {d : Char} (hcontrol : c.toNat < 0x20) (hd : ¬ d.toNat < 0x20) : c ≠ d :=
  fun h => hd (h ▸ hcontrol)

theorem not_mem_newline (hcontrol : c.toNat < 0x20) (hne : c ≠ '\n') (level : ℕ) :
    c ∉ newline level := by
  rw [newline, List.mem_cons, not_or]
  refine ⟨hne, fun hmem => ?_⟩
  exact ne_of_control hcontrol (by decide) (List.mem_replicate.mp hmem).2

theorem not_mem_signed (hcontrol : c.toNat < 0x20) (negative : Bool) (n : ℕ) :
    c ∉ signed negative n := by
  have hdigit : c.isDigit = false := by
    have key : ∀ k < 0x20, (Char.ofNat k).isDigit = false := by decide
    simpa [Char.ofNat_toNat] using key _ hcontrol
  rw [signed, List.mem_append]
  rintro (hmem | hmem)
  · cases negative with
    | true => exact ne_of_control hcontrol (by decide) (List.mem_singleton.mp hmem)
    | false => cases hmem
  · exact absurd (isDigit_toDigits n c hmem) (by simp [hdigit])

theorem not_mem_marks (marks : List Char) (hcontrol : c.toNat < 0x20)
    (h : marks.all (fun d => decide (0x20 ≤ d.toNat)) = true) : c ∉ marks := by
  intro hmem
  have hle := of_decide_eq_true (List.all_eq_true.mp h c hmem)
  omega

mutual

/-- A printed value has no control but the line end. -/
theorem not_mem_printAt (hcontrol : c.toNat < 0x20) (hne : c ≠ '\n') :
    ∀ (v : Json) (level : ℕ), Plain v → c ∉ printAt cs level v
  | null, _, _ => not_mem_marks ['n', 'u', 'l', 'l'] hcontrol rfl
  | bool true, _, _ => not_mem_marks ['t', 'r', 'u', 'e'] hcontrol rfl
  | bool false, _, _ => not_mem_marks ['f', 'a', 'l', 's', 'e'] hcontrol rfl
  | int i, _, _ => by
    rw [printAt, toList_int]
    exact not_mem_signed hcontrol _ _
  | float x, _, h => h.elim
  | str t, _, _ => by
    rw [printAt]
    exact not_mem_printText hcontrol cs t
  | array [], _, _ => by
    rw [printAt]
    exact not_mem_marks _ hcontrol rfl
  | array (x :: xs), level, ⟨hx, hxs⟩ => by
    have hfirst := not_mem_printAt hcontrol hne x (level + 1) hx
    have hrest := not_mem_printItems hcontrol hne xs (level + 1) hxs
    have hopen : c ≠ '[' := ne_of_control hcontrol (by decide)
    have hclose : c ≠ ']' := ne_of_control hcontrol (by decide)
    simp [printAt, not_mem_newline hcontrol hne, hfirst, hrest, hopen, hclose]
  | object [], _, _ => by
    rw [printAt]
    exact not_mem_marks _ hcontrol rfl
  | object (m :: ms), level, ⟨_, hm, hms⟩ => by
    have hkey := not_mem_printText hcontrol cs m.1
    have hvalue := not_mem_printAt hcontrol hne m.2 (level + 1) hm
    have hrest := not_mem_printMembers hcontrol hne ms (level + 1) hms
    have hopen : c ≠ '{' := ne_of_control hcontrol (by decide)
    have hclose : c ≠ '}' := ne_of_control hcontrol (by decide)
    have hcolon : c ∉ [':', ' '] := not_mem_marks _ hcontrol rfl
    simp_all [printAt, not_mem_newline hcontrol hne]

theorem not_mem_printItems (hcontrol : c.toNat < 0x20) (hne : c ≠ '\n') :
    ∀ (xs : List Json) (level : ℕ), AllPlain xs → c ∉ printItems cs level xs
  | [], _, _ => List.not_mem_nil
  | x :: xs, level, ⟨hx, hxs⟩ => by
    have hfirst := not_mem_printAt hcontrol hne x level hx
    have hrest := not_mem_printItems hcontrol hne xs level hxs
    have hcomma : c ≠ ',' := ne_of_control hcontrol (by decide)
    simp [printItems, not_mem_newline hcontrol hne, hfirst, hrest, hcomma]

theorem not_mem_printMembers (hcontrol : c.toNat < 0x20) (hne : c ≠ '\n') :
    ∀ (ms : List (String × Json)) (level : ℕ), MembersPlain ms → c ∉ printMembers cs level ms
  | [], _, _ => List.not_mem_nil
  | m :: ms, level, ⟨hm, hms⟩ => by
    have hkey := not_mem_printText hcontrol cs m.1
    have hvalue := not_mem_printAt hcontrol hne m.2 level hm
    have hrest := not_mem_printMembers hcontrol hne ms level hms
    have hcomma : c ≠ ',' := ne_of_control hcontrol (by decide)
    have hcolon : c ∉ [':', ' '] := not_mem_marks _ hcontrol rfl
    simp_all [printMembers, not_mem_newline hcontrol hne]

end

/-- The line ends of a printed value are those of the library already. -/
theorem unifyNewlines_print {v : Json} (h : Plain v) :
    Text.unifyNewlines (v.print cs) = v.print cs :=
  Text.unifyNewlines_of_not_mem (not_mem_printAt (by decide) (by decide) v 0 h)

end Json

end ModulePins
