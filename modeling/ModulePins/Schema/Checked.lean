import ModulePins.Text.Basic

/-!
# Checks that report every issue

A check of data either gives a result or lists all issues, each with the place it was found at.
Checks are combined applicatively: the results are put together if all checks pass, and otherwise
the lists of issues are joined in the order of the checks.
-/

namespace ModulePins

/-- One thing wrong with the data. -/
structure Issue where
  /-- The keys and indices that lead to the place. -/
  place : List String
  message : String
  deriving DecidableEq, Repr

/-- The outcome of a check. -/
inductive Checked (α : Type) where
  | pass (result : α)
  | fail (issues : List Issue)
  deriving Repr

namespace Checked

variable {α β : Type}

def issues : Checked α → List Issue
  | pass _ => []
  | fail is => is

def map (f : α → β) : Checked α → Checked β
  | pass a => pass (f a)
  | fail is => fail is

/-- Both checks; all issues of both are kept. -/
def both (f : Checked (α → β)) (x : Checked α) : Checked β :=
  match f, x with
  | pass f, pass a => pass (f a)
  | f, x => fail (f.issues ++ x.issues)

instance : Applicative Checked where
  pure := pass
  seq f x := both f (x ())

/-- A check that stands for one issue at the place itself. -/
def refuse (message : String) : Checked α := fail [⟨[], message⟩]

/-- The issues seen from one step further out. -/
def within (step : String) : Checked α → Checked α
  | pass a => pass a
  | fail is => fail (is.map fun i => { i with place := step :: i.place })

/-- A further check of a result. -/
def andThen (x : Checked α) (f : α → Checked β) : Checked β :=
  match x with
  | pass a => f a
  | fail is => fail is

/-- Checks the elements of a list, which stand at the places `n`, `n + 1`, …. -/
def elements (check : α → Checked β) (n : Nat) : List α → Checked (List β)
  | [] => pass []
  | a :: as =>
    both (map List.cons (within (toString n) (check a))) (elements check (n + 1) as)

end Checked

namespace Issue

/-- The place as messages show it. -/
def placeText (i : Issue) : String :=
  let t := Text.join "." i.place
  if t = "" then "<root>" else t

/-- The issues in one line, under the name of what was checked. -/
def report (subject : String) (issues : List Issue) : String :=
  "Invalid " ++ subject ++ ": " ++
    Text.join "; " (issues.map fun i => i.placeText ++ ": " ++ i.message)

end Issue

end ModulePins
