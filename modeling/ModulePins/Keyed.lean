/-!
# Lists keyed by a field

Properties of a pin, pins of a module, members of a mapping and entries of the emission cache
are all lists in which a key names at most one element and the order of first appearance shows in
the output. `Keyed.put` is the one write they share: an element whose key is already present takes
the place of the old one, any other element goes to the end.

## Main definitions

* `Keyed.put` — write one element;
* `Keyed.putAll` — write the elements of a list one after the other;
* `Keyed.collapse` — what a list leaves when it is written into the empty list: each key at its
  first position, with its last element.
-/

namespace ModulePins

namespace Keyed

variable {α κ : Type} [DecidableEq κ]

/-- Writes `x` over the element with its key, or at the end if there is none. -/
def put (key : α → κ) (x : α) : List α → List α
  | [] => [x]
  | y :: ys => if key y = key x then x :: ys else y :: put key x ys

/-- Writes the elements of `ys` into `xs` one after the other. -/
def putAll (key : α → κ) (xs ys : List α) : List α :=
  ys.foldl (fun acc y => put key y acc) xs

/-- Each key at its first position, with its last element. -/
def collapse (key : α → κ) (xs : List α) : List α :=
  putAll key [] xs

/-- The element with key `k`. -/
def find? (key : α → κ) (k : κ) (xs : List α) : Option α :=
  xs.find? fun x => key x = k

/-- Is there an element with key `k`? -/
def hasKey (key : α → κ) (k : κ) (xs : List α) : Bool :=
  xs.any fun x => key x = k

/-- The list without the elements of key `k`. -/
def erase (key : α → κ) (k : κ) (xs : List α) : List α :=
  xs.filter fun x => key x ≠ k

end Keyed

end ModulePins
