import Mathlib.Logic.Function.Iterate
import ModulePins.Address
import ModulePins.Proofs.Path

/-!
# Addresses and directories

The address of a directory is made of the names that lead to it, with the separator between them. As
long as the names have no character of the separator and no slash of either kind in them, nothing is
lost in this: the names can be read off the address again, and the address before the last separator
is that of the directory above. A separator may be any text, and may overlap itself; what matters is
that a name holds none of its characters, since separators are stripped from the front of an address
character by character.

Above an address stand all the texts that end at one of its separators, whether or not they are the
addresses of directories. With a separator of one character the one before the last separator is the
longest of them, and it has all the others above itself.

## Main definitions

* `Address.Plain` — a name that an address leaves alone
* `Address.Above` — what stands before a separator

## Main results

* `Address.format_of_plain`, `Address.segments_format` — names to an address and back
* `Address.parent_format` — the address of the directory above
* `Address.Above.parent` — everything above an address is above the one before its last separator
-/

namespace ModulePins

namespace Address

variable {separator name address above : String} {names : Segments}

/-! ### Names -/

/-- The names of a path text are those that were joined. -/
theorem names_join (hnames : ProperNames names) (hplain : ∀ name ∈ names, '\\' ∉ name.toList) :
    Address.names (Text.join "/" names) = names := by
  have hjoined : '\\' ∉ (Text.join "/" names).toList := fun hmem => by
    rcases Text.mem_of_mem_join hmem with heq | ⟨name, hname, hc⟩
    · exact absurd heq (by decide)
    · exact hplain name hname hc
  rw [Address.names, Text.replaceChar_of_not_mem hjoined]
  rcases eq_or_ne names [] with rfl | hne
  · cbv
  · rw [Text.splitOn_join rfl hne fun name hname => (hnames name hname).2, List.filter_eq_self]
    exact fun name hname => decide_eq_true (hnames name hname).1

/-- The name of a directory, without a slash and without any character of the separator. -/
structure Plain (separator name : String) : Prop where
  ne_empty : name ≠ ""
  no_slash : '/' ∉ name.toList
  no_backslash : '\\' ∉ name.toList
  no_separator : ∀ c ∈ separator.toList, c ∉ name.toList

theorem Plain.names_eq (h : Plain separator name) : Address.names name = [name] := by
  have hjoin : Text.join "/" [name] = name := String.intercalate_singleton
  rw [← hjoin, names_join, hjoin]
  · exact fun n hn => List.mem_singleton.mp hn ▸ ⟨h.ne_empty, h.no_slash⟩
  · exact fun n hn => List.mem_singleton.mp hn ▸ h.no_backslash

theorem flatMap_names (h : ∀ name ∈ names, Plain separator name) :
    names.flatMap Address.names = names := by
  induction names with
  | nil => rfl
  | cons name names ih =>
    obtain ⟨hname, hnames⟩ := List.forall_mem_cons.mp h
    rw [List.flatMap_cons, hname.names_eq, ih hnames, List.singleton_append]

/-! ### Separators in front -/

theorem normalize_of_head (h : ∀ c ∈ address.toList.head?, c ∉ separator.toList) :
    normalize separator address = address := by
  rw [normalize, Text.dropLeading]
  cases hchars : address.toList with
  | nil => rw [List.dropWhile_nil, ← hchars, String.ofList_toList]
  | cons c cs =>
    have hc : c ∉ separator.toList := h c (by rw [hchars]; rfl)
    rw [List.dropWhile_cons_of_neg (by simpa using hc), ← hchars, String.ofList_toList]

theorem normalize_append (separator address : String) :
    normalize separator (separator ++ address) = normalize separator address := by
  rw [normalize, normalize, Text.dropLeading, Text.dropLeading, String.toList_append,
    List.dropWhile_append_of_pos fun c hc => by simpa using hc]

/-- Separators in front of an address make no difference, however many there are. -/
theorem normalize_iterate (separator address : String) (k : ℕ) :
    normalize separator ((separator ++ ·)^[k] address) = normalize separator address := by
  induction k with
  | zero => rfl
  | succ k ih => rw [Function.iterate_succ_apply', normalize_append, ih]

/-! ### From names to an address and back -/

/-- **The address of a directory** has nothing but its names and the separators between them. -/
theorem format_of_plain (h : ∀ name ∈ names, Plain separator name) :
    format separator names = Text.join separator names := by
  rw [format, flatMap_names h]
  refine normalize_of_head fun c hc => ?_
  cases names with
  | nil =>
    rw [Text.join, String.intercalate_nil] at hc
    cases hc
  | cons name names =>
    have hname := h name List.mem_cons_self
    obtain ⟨front, hfront⟩ : name.toList <+: (Text.join separator (name :: names)).toList := by
      cases names with
      | nil => rw [Text.join, String.intercalate_singleton]
      | cons next names =>
        rw [Text.join, String.intercalate_cons_cons, String.append_assoc, String.toList_append]
        exact List.prefix_append _ _
    cases hchars : name.toList with
    | nil => exact absurd (String.toList_eq_nil_iff.mp hchars) hname.ne_empty
    | cons d ds =>
      rw [← hfront, hchars, List.cons_append, List.head?_cons, Option.mem_some_iff] at hc
      subst hc
      intro hmem
      exact hname.no_separator d hmem (by rw [hchars]; exact List.mem_cons_self)

theorem exists_cons (separator : Separator) : ∃ c p, separator.val.toList = c :: p :=
  List.exists_cons_of_ne_nil fun h => separator.property (String.toList_eq_nil_iff.mp h)

/-- **The names can be read off the address.** -/
theorem segments_format {separator : Separator} (h : ∀ name ∈ names, Plain separator.val name) :
    segments separator (format separator.val names) = names := by
  obtain ⟨c, p, hseparator⟩ := exists_cons separator
  rw [format_of_plain h, segments]
  rcases eq_or_ne names [] with rfl | hne
  · rw [Text.join, String.intercalate_nil, Text.splitOn, hseparator]
    simp [Text.splitChars]
  · have hfree : ∀ name ∈ names, c ∉ name.toList := fun name hname =>
      (h name hname).no_separator c (by rw [hseparator]; exact List.mem_cons_self)
    rw [Text.splitOn_join hseparator hne hfree, List.filter_eq_self]
    exact fun name hname => decide_eq_true (h name hname).ne_empty

/-! ### Above an address -/

/-- The text `above` stands before a separator of the address. -/
def Above (separator above address : String) : Prop := ∃ rest, address = above ++ separator ++ rest

instance : Decidable (Above separator above address) :=
  decidable_of_iff (above.toList ++ separator.toList <+: address.toList)
    ⟨fun ⟨rest, hrest⟩ => ⟨String.ofList rest, String.toList_inj.mp (by simp [← hrest])⟩,
      fun ⟨rest, hrest⟩ => ⟨rest.toList, by simp [hrest]⟩⟩

theorem Above.trans {a b c : String} (h : Above separator a b) (h' : Above separator b c) :
    Above separator a c := by
  obtain ⟨rest, rfl⟩ := h
  obtain ⟨rest', rfl⟩ := h'
  exact ⟨rest ++ separator ++ rest', by simp only [String.append_assoc]⟩

theorem Above.length_lt {separator : Separator} (h : Above separator.val above address) :
    above.length < address.length := by
  obtain ⟨c, p, hseparator⟩ := exists_cons separator
  have hlength : 0 < separator.val.length := by
    rw [← String.length_toList, hseparator]
    exact Nat.succ_pos _
  obtain ⟨rest, rfl⟩ := h
  simp only [String.length_append]
  omega

/-- The address before the last separator, if there is a separator. -/
theorem parent_cases (separator : Separator) (address : String) :
    (parent separator address = root ∧ ∀ above, ¬ Above separator.val above address) ∨
      ∃ after, Text.splitLast? separator.val address = some (parent separator address, after) := by
  rw [parent]
  cases hcut : Text.splitLast? separator.val address with
  | none => exact .inl ⟨rfl, fun above ⟨rest, heq⟩ => Text.splitLast?_eq_none hcut above rest heq⟩
  | some cut => exact .inr ⟨cut.2, rfl⟩

theorem parent_eq_root_or_above (separator : Separator) (address : String) :
    parent separator address = root ∨ Above separator.val (parent separator address) address := by
  rcases parent_cases separator address with ⟨hroot, -⟩ | ⟨after, hcut⟩
  · exact .inl hroot
  · exact .inr ⟨after, (Text.splitLast?_eq_some hcut).1⟩

/-- **The address of the directory above** is the one before the last separator. -/
theorem parent_format {separator : Separator}
    (h : ∀ n ∈ names ++ [name], Plain separator.val n) :
    parent separator (format separator.val (names ++ [name])) = format separator.val names := by
  obtain ⟨hnames, hname⟩ := List.forall_mem_append.mp h
  obtain ⟨hname, -⟩ := List.forall_mem_cons.mp hname
  obtain ⟨c, p, hseparator⟩ := exists_cons separator
  rw [format_of_plain h, format_of_plain hnames]
  rcases eq_or_ne names [] with rfl | hne
  · -- a single name holds no separator at all
    rw [List.nil_append, Text.join, Text.join, String.intercalate_singleton,
      String.intercalate_nil]
    rcases parent_cases separator name with ⟨hroot, -⟩ | ⟨after, hcut⟩
    · exact hroot
    · have htext := congrArg String.toList (Text.splitLast?_eq_some hcut).1
      rw [String.toList_append, String.toList_append, hseparator] at htext
      exact absurd (by rw [htext]; simp) (hname.no_separator c (by rw [hseparator]; simp))
  · have hjoin : Text.join separator.val (names ++ [name]) =
        Text.join separator.val names ++ separator.val ++ name := by
      rw [Text.join, String.intercalate_append_of_ne_nil hne (by simp),
        String.intercalate_singleton]
      rfl
    rcases parent_cases separator (Text.join separator.val (names ++ [name])) with
      ⟨-, hnone⟩ | ⟨after, hcut⟩
    · exact absurd ⟨name, hjoin⟩ (hnone _)
    · -- the last separator is the one before the name, since the name has none of its characters
      obtain ⟨between, hright, hleft⟩ := Text.last_cut_le hcut hjoin
      rcases List.eq_nil_or_concat' between with rfl | ⟨init, x, rfl⟩
      · rw [List.append_nil] at hleft
        exact String.toList_inj.mp (List.append_cancel_right hleft)
      · have hlast := congrArg List.getLast? hleft
        rw [← List.append_assoc, List.getLast?_concat, hseparator,
          List.getLast?_append_of_ne_nil _ (List.cons_ne_nil c p)] at hlast
        have hx : x ∈ separator.val.toList := hseparator ▸ List.mem_of_getLast? hlast
        exact absurd (by rw [hright]; simp) (hname.no_separator x hx)

/-- **Everything above an address** is the one before its last separator, or is above that. -/
theorem Above.parent {separator : Separator} (hone : separator.val.length = 1)
    (h : Above separator.val above address) :
    above = parent separator address ∨ Above separator.val above (parent separator address) := by
  obtain ⟨c, hc⟩ : ∃ c, separator.val.toList = [c] := by
    rwa [← String.length_toList, List.length_eq_one_iff] at hone
  obtain ⟨rest, hrest⟩ := h
  rcases parent_cases separator address with ⟨-, hnone⟩ | ⟨after, hcut⟩
  · exact absurd ⟨rest, hrest⟩ (hnone above)
  · obtain ⟨between, -, hleft⟩ := Text.last_cut_le hcut hrest
    rcases List.eq_nil_or_concat' between with rfl | ⟨init, x, rfl⟩
    · rw [List.append_nil] at hleft
      exact .inl (String.toList_inj.mp (List.append_cancel_right hleft)).symm
    · -- what lies between ends with the separator, and nothing else of that is left
      rw [hc, ← List.append_assoc] at hleft
      obtain ⟨hparent, -⟩ := List.append_inj' hleft rfl
      refine .inr ⟨String.ofList init, String.toList_inj.mp ?_⟩
      rw [hparent, String.toList_append, String.toList_append, String.toList_ofList, hc]

end Address

end ModulePins
