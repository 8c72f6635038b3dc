import ModulePins.Number.Double

/-!
# JSON values

Objects keep the order of their members. Whole numbers are kept exactly; all others are doubles,
among them the not-a-number and the infinities that the reader also accepts.
-/

namespace ModulePins

/-- A JSON value. -/
inductive Json where
  | null
  | bool (b : Bool)
  | int (i : Int)
  | float (x : Double)
  | str (s : String)
  | array (items : List Json)
  | object (members : List (String × Json))
  deriving Repr

namespace Json

instance : Inhabited Json := ⟨null⟩

/-- A text, or null. -/
def ofOption : Option String → Json
  | some s => str s
  | none => null

end Json

end ModulePins
