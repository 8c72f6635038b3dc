import Mathlib.Data.Nat.Notation
import ModulePins.Path
import ModulePins.Proofs.Text.Cuts

/-!
# Path texts

The text of an absolute path names its components, provided that none of them is empty or holds a
slash. Components read from a text are like that, and so are the names in a directory.

## Main results

* `Path.join_names` — names behind a path
* `Path.properNames_ofString` — the components of a text
* `Path.toString_root_inj` — one absolute path for each text
-/

namespace ModulePins

/-- Names that a slash keeps apart. -/
def ProperNames (names : List String) : Prop := ∀ n ∈ names, n ≠ "" ∧ '/' ∉ n.toList

namespace Path

variable {l l' : List String} {name : String} {names : List String}

/-! ### Names -/

/-- The text is the name of something in a directory. -/
structure IsName (name : String) : Prop where
  ne_empty : name ≠ ""
  no_slash : '/' ∉ name.toList
  ne_here : name ≠ "."
  ne_up : name ≠ ".."

instance : Decidable (IsName name) :=
  decidable_of_iff (name ≠ "" ∧ '/' ∉ name.toList ∧ name ≠ "." ∧ name ≠ "..")
    ⟨fun ⟨hempty, hslash, hhere, hup⟩ => ⟨hempty, hslash, hhere, hup⟩,
      fun h => ⟨h.ne_empty, h.no_slash, h.ne_here, h.ne_up⟩⟩

theorem ofString_name (h : IsName name) : ofString name = ⟨.relative, [name]⟩ := by
  have hanchor : anchorOf name = .relative := by
    have hstart : name.toList.takeWhile (· = '/') = [] := by
      cases hlist : name.toList with
      | nil => rfl
      | cons c cs =>
        have hne : c ≠ '/' := fun heq => h.no_slash (by rw [hlist, heq]; exact List.mem_cons_self)
        exact List.takeWhile_cons_of_neg (by simpa using hne)
    rw [anchorOf, hstart]
    rfl
  have hparts : components name = [name] := by
    have hsplit : Text.splitOn "/" name = [name] := by
      change (Text.splitChars '/' [] [] name.toList).map String.ofList = _
      rw [Text.splitChars_of_not_mem h.no_slash]
      simp
    rw [components, hsplit]
    simp [h.ne_empty, h.ne_here]
  rw [ofString, hanchor, hparts]

theorem div_name (p : Path) (h : IsName name) : p / name = ⟨p.anchor, p.parts ++ [name]⟩ := by
  change p.append (ofString name) = _
  rw [ofString_name h]
  rfl

@[simp] theorem parts_div (p : Path) (h : IsName name) : (p / name).parts = p.parts ++ [name] := by
  rw [div_name p h]

@[simp] theorem parent_div (p : Path) (h : IsName name) : (p / name).parent = p := by
  rw [div_name p h, parent, List.dropLast_concat]

@[simp] theorem name_div (p : Path) (h : IsName name) : (p / name).name = name := by
  rw [div_name p h, Path.name, List.getLast?_concat, Option.getD_some]

theorem join_names (p : Path) (h : ∀ name ∈ names, IsName name) :
    p.join names = ⟨p.anchor, p.parts ++ names⟩ := by
  induction names generalizing p with
  | nil => simp [join]
  | cons name names ih =>
    obtain ⟨hname, hnames⟩ := List.forall_mem_cons.mp h
    change (p / name).join names = _
    rw [div_name p hname, ih _ hnames, List.append_assoc, List.singleton_append]

/-! ### Components -/

/-- The components of a text. -/
theorem properNames_ofString (s : String) : ProperNames (ofString s).parts := by
  intro n hn
  rw [ofString, components, List.mem_filter] at hn
  obtain ⟨hpiece, hkept⟩ := hn
  refine ⟨by simp_all, ?_⟩
  obtain ⟨piece, hmem, rfl⟩ := List.mem_map.mp hpiece
  rw [String.toList_ofList]
  exact Text.not_mem_splitChars List.not_mem_nil piece hmem

theorem join_slash_inj (h : ProperNames l) (h' : ProperNames l')
    (heq : Text.join "/" l = Text.join "/" l') : l = l' := by
  have hsplit := String.toList_split_intercalate (c := '/') fun n hn => (h n hn).2
  have hsplit' := String.toList_split_intercalate (c := '/') fun n hn => (h' n hn).2
  have hlists : (if l = [] then [""] else l) = if l' = [] then [""] else l' := by
    have heq' : (String.singleton '/').intercalate l = (String.singleton '/').intercalate l' := heq
    rw [← hsplit, ← hsplit', heq']
  have hempty {names : List String} (hn : ProperNames names) : names ≠ [""] := by
    rintro rfl
    exact (hn "" List.mem_cons_self).1 rfl
  split at hlists <;> split at hlists
  · simp_all
  · exact absurd hlists.symm (hempty h')
  · exact absurd hlists (hempty h)
  · exact hlists

theorem toString_root_inj (h : ProperNames l) (h' : ProperNames l')
    (heq : (⟨.root, l⟩ : Path).toString = (⟨.root, l'⟩ : Path).toString) : l = l' := by
  refine join_slash_inj h h' ?_
  simpa [Path.toString] using heq

/-! ### Last names -/

/-- The text of a path ends with its last name. -/
theorem suffix_toString (l : List String) (name : String) :
    '/' :: name.toList <:+ (⟨.root, l ++ [name]⟩ : Path).toString.toList := by
  have hbody : '/' :: name.toList <:+ '/' :: (Text.join "/" (l ++ [name])).toList := by
    rw [Text.join, String.toList_intercalate, List.map_append, List.map_singleton]
    generalize l.map String.toList = ls
    induction ls with
    | nil => simp [List.intercalate]
    | cons x ls ih =>
      refine ih.trans ⟨'/' :: x, ?_⟩
      cases ls <;> simp [List.intercalate, List.intersperse]
  refine hbody.trans ?_
  simp [Path.toString]

/-- Paths with the same text have the same last name. -/
theorem last_eq_of_toString_eq {name name' : String} (h : '/' ∉ name.toList) (h' : '/' ∉ name'.toList)
    (heq : (⟨.root, l ++ [name]⟩ : Path).toString = (⟨.root, l' ++ [name']⟩ : Path).toString) :
    name = name' := by
  have hsuffix := suffix_toString l name
  have hsuffix' := suffix_toString l' name'
  rw [heq] at hsuffix
  have hinside {xs ys : List Char} (hys : '/' ∉ ys) (hle : '/' :: xs <:+ '/' :: ys) : xs = ys := by
    rcases List.suffix_cons_iff.mp hle with hsame | hbelow
    · exact (List.cons.inj hsame).2
    · exact absurd (hbelow.subset List.mem_cons_self) hys
  rcases List.suffix_or_suffix_of_suffix hsuffix hsuffix' with hle | hle
  · exact String.toList_inj.mp (hinside h' hle)
  · exact String.toList_inj.mp (hinside h hle).symm

end Path

end ModulePins
