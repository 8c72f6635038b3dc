/-!
# Text operations

The cuts that addresses, paths and file texts need, over lists of characters.

* `Text.dropLeading` — drops the longest start made of given characters;
* `Text.splitOn` — cuts at every occurrence of a separator text, found from the left;
* `Text.splitLast?` — cuts at the last occurrence of a separator text;
* `Text.unifyNewlines` — one form of line end: `\r\n` and `\r` become `\n`.
-/

namespace ModulePins

namespace Text

/-- Drops the longest start of the text that consists of characters of `set`. -/
def dropLeading (set : String) (s : String) : String :=
  String.ofList (s.toList.dropWhile fun c => set.toList.contains c)

/-- The characters after `start`, if the text begins with `start`. -/
def afterStart? : List Char → List Char → Option (List Char)
  | [], s => some s
  | _ :: _, [] => none
  | c :: p, d :: s => if c = d then afterStart? p s else none

/-- The rest after a start is no longer than the text. -/
theorem length_of_afterStart? {p s r : List Char} (h : afterStart? p s = some r) :
    s.length = p.length + r.length := by
  induction p generalizing s with
  | nil => simp [afterStart?] at h; simp [h]
  | cons c p ih =>
    cases s with
    | nil => simp [afterStart?] at h
    | cons d s =>
      simp only [afterStart?] at h
      split at h
      · have := ih h
        simp only [List.length_cons]
        omega
      · simp at h

/-- Cuts at every occurrence of the non-empty separator `c :: p`, found from the left; `acc`
holds, reversed, what was read since the last cut. -/
def splitChars (c : Char) (p : List Char) (acc : List Char) (s : List Char) : List (List Char) :=
  match s with
  | [] => [acc.reverse]
  | d :: s' =>
    match h : afterStart? (c :: p) (d :: s') with
    | some r =>
      have : r.length < s'.length + 1 := by
        have := length_of_afterStart? h
        simp only [List.length_cons] at this
        omega
      acc.reverse :: splitChars c p [] r
    | none => splitChars c p (d :: acc) s'
  termination_by s.length

/-- Cuts the text at every occurrence of `sep`; an empty separator cuts nowhere. -/
def splitOn (sep s : String) : List String :=
  match sep.toList with
  | [] => [s]
  | c :: p => (splitChars c p [] s.toList).map String.ofList

/-- Looks for the reversed separator `back` in a reversed text; `after` holds, in reading order,
what lies behind the place reached. -/
def lastCut (back after : List Char) : List Char → Option (List Char × List Char)
  | [] => if back.isEmpty then some ([], after) else none
  | d :: s =>
    match afterStart? back (d :: s) with
    | some r => some (r.reverse, after)
    | none => lastCut back (d :: after) s

/-- The text before a cut and the separator fit into what was searched. -/
theorem length_lastCut {back after s before rest : List Char}
    (h : lastCut back after s = some (before, rest)) :
    before.length + back.length ≤ s.length := by
  induction s generalizing after with
  | nil =>
    unfold lastCut at h
    split at h
    · rename_i e
      simp only [List.isEmpty_iff] at e
      cases h
      simp [e]
    · cases h
  | cons d s ih =>
    unfold lastCut at h
    split at h
    · rename_i r found
      have := length_of_afterStart? found
      cases h
      simp only [List.length_reverse]
      omega
    · have := ih h
      simp only [List.length_cons]
      omega

/-- The text before and after the last occurrence of `sep`. -/
def splitLast? (sep s : String) : Option (String × String) :=
  (lastCut sep.toList.reverse [] s.toList.reverse).map fun cut =>
    (String.ofList cut.1, String.ofList cut.2)

/-- The part before the last occurrence of a separator is shorter than the text by at least the
separator. -/
theorem length_of_splitLast? {sep s before after : String}
    (h : splitLast? sep s = some (before, after)) :
    before.length + sep.length ≤ s.length := by
  obtain ⟨⟨b, a⟩, found, pair⟩ := Option.map_eq_some_iff.1 h
  have := length_lastCut found
  cases pair
  simpa [String.length_toList] using this

/-- Unifies the line ends of a text: `\r\n` and a lone `\r` both become `\n`. -/
def unifyNewlines : List Char → List Char
  | [] => []
  | '\r' :: '\n' :: s => '\n' :: unifyNewlines s
  | '\r' :: s => '\n' :: unifyNewlines s
  | c :: s => c :: unifyNewlines s

/-- Every occurrence of the character `a` becomes `b`. -/
def replaceChar (a b : Char) (s : String) : String :=
  String.ofList (s.toList.map fun c => if c = a then b else c)

/-- The parts with the separator between them. -/
def join (sep : String) (parts : List String) : String :=
  String.intercalate sep parts

/-- A blank: a character that a number text may have around it. -/
def isBlank (c : Char) : Bool :=
  let n := c.toNat
  (0x9 ≤ n && n ≤ 0xd) || (0x1c ≤ n && n ≤ 0x20) || n = 0x85 || n = 0xa0 || n = 0x1680 ||
    (0x2000 ≤ n && n ≤ 0x200a) || n = 0x2028 || n = 0x2029 || n = 0x202f || n = 0x205f || n = 0x3000

/-- The text without the blanks around it. -/
def trim (s : List Char) : List Char :=
  ((s.dropWhile isBlank).reverse.dropWhile isBlank).reverse

/-- The value of a digit in a base up to 36; letters of both cases count. -/
def digitValue? (base : Nat) (c : Char) : Option Nat :=
  let v :=
    if '0' ≤ c && c ≤ '9' then c.toNat - '0'.toNat
    else if 'a' ≤ c && c ≤ 'z' then c.toNat - 'a'.toNat + 10
    else if 'A' ≤ c && c ≤ 'Z' then c.toNat - 'A'.toNat + 10
    else base
  if v < base then some v else none

/-- The number that the digits write in a base; `none` if a character is no digit. -/
def readNat? (base : Nat) (s : List Char) : Option Nat :=
  s.foldlM (fun n c => (digitValue? base c).map (n * base + ·)) 0

/-- `n` written in base `base` with lower-case digits, in at least `width` places. -/
def natDigits (base width n : Nat) : String :=
  let ds := Nat.toDigits base n
  String.ofList (List.replicate (width - ds.length) '0' ++ ds)

end Text

end ModulePins
