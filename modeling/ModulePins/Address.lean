import ModulePins.Fault
import ModulePins.Settings.Basic

/-!
# Module addresses

A module is known by the directory it lies in, written with a separator: the directory `X/Y` below
the workspace has the address `X:Y`. The workspace directory itself has the empty address.

* `Address.format` — the address of a directory;
* `Address.parent` — the address before the last separator;
* `Address.normalize` — an address without separators in front, as users may write them;
* `Address.segments` — the directory names of an address.
-/

namespace ModulePins

/-- Directory names, from the outermost one inwards. -/
abbrev Segments := List String

namespace Address

/-- The address of the workspace directory. -/
def root : String := ""

/-- The names that a segment stands for: it may hold slashes of either kind. -/
def names (segment : String) : List String :=
  (Text.splitOn "/" (Text.replaceChar '\\' '/' segment)).filter (· ≠ "")

/-- An address without characters of the separator in front. -/
def normalize (separator address : String) : String :=
  Text.dropLeading separator address

/-- The address of a directory. -/
def format (separator : String) (segments : Segments) : String :=
  normalize separator (Text.join separator (segments.flatMap names))

/-- A text as a separator. -/
def separator? (s : String) : Except Fault Separator :=
  if h : s ≠ "" then .ok ⟨s, h⟩ else .error (.value .emptySeparator)

/-- The text before the last separator; that of the workspace directory if there is none. -/
def parent (separator : Separator) (address : String) : String :=
  match Text.splitLast? separator.val address with
  | some (before, _) => before
  | none => root

/-- An address that is not the root's is longer than the one before its last separator. -/
theorem length_parent {separator : Separator} {address : String} (h : address ≠ "") :
    (parent separator address).length < address.length := by
  have long : 0 < address.length := Nat.pos_of_ne_zero fun e => h (String.length_eq_zero_iff.1 e)
  have wide : 0 < separator.val.length :=
    Nat.pos_of_ne_zero fun e => separator.property (String.length_eq_zero_iff.1 e)
  unfold parent
  split
  · rename_i cut
    have := Text.length_of_splitLast? cut
    omega
  · exact long

/-- The directory names of an address. -/
def segments (separator : Separator) (address : String) : Segments :=
  (Text.splitOn separator.val address).filter (· ≠ "")

/-- An address as users see it, with a separator in front. -/
def label (separator : Separator) (address : String) : String := separator.val ++ address

end Address

end ModulePins
