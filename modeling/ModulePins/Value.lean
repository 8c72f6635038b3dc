import ModulePins.Calendar
import ModulePins.Number.Shortest
import ModulePins.Text.Quoted

/-!
# Values

What a document holds once its scalars have been given values. Mappings keep the order in which
their keys first came; values can be keys unless they are collections.

* `Value.Key` — what decides whether two keys are the same: numbers are compared by what they
  stand for, so `1`, `1.0` and true are one key, and date-times with an offset by their moment;
* `Value.setEntry` — a key that is present keeps its place and its first form, and takes the new
  value;
* `Value.merge` — the layered override of one mapping by another.
-/

namespace ModulePins

/-- A value. -/
inductive Value where
  | null
  | bool (b : Bool)
  | int (i : Int)
  | float (x : Double)
  | str (s : String)
  | bytes (b : List UInt8)
  | date (d : Date)
  | dateTime (t : DateTime)
  | list (items : List Value)
  | mapping (entries : List (Value × Value))
  | set (items : List Value)
  /-- A key with its value, as an item of a list. -/
  | pair (first second : Value)
  deriving Repr

namespace Value

instance : Inhabited Value := ⟨null⟩

/-- What decides whether two keys are the same. -/
inductive Key where
  | null
  | number (i : Int)
  | fraction (x : Double)
  | str (s : String)
  | bytes (b : List UInt8)
  | date (d : Date)
  | naive (t : DateTime)
  | moment (microseconds : Int)
  deriving DecidableEq, Repr

/-- The key that a value makes; collections make none. -/
def key? : Value → Option Key
  | null => some .null
  | bool b => some (.number (if b then 1 else 0))
  | int i => some (.number i)
  | float x =>
    match x.toInt? with
    | some i => some (.number i)
    | none => some (.fraction x)
  | str s => some (.str s)
  | bytes b => some (.bytes b)
  | date d => some (.date d)
  | dateTime t =>
    match t.instant? with
    | some i => some (.moment i)
    | none => some (.naive t)
  | list _ | mapping _ | set _ | pair _ _ => none

/-- Are two keys the same? A not-a-number is the same as no key, unless both are the named one. -/
def sameKey (a b : Value) : Bool :=
  match a.key?, b.key? with
  | some (.fraction x), some k => (x.view ≠ .nan || x = .namedNan) && Key.fraction x = k
  | some k, some l => k = l
  | _, _ => false

/-- Gives a key a value. -/
def setEntry (k v : Value) : List (Value × Value) → List (Value × Value)
  | [] => [(k, v)]
  | e :: es => if sameKey e.1 k then (e.1, v) :: es else e :: setEntry k v es

/-- The value of a key. -/
def entry? (k : Value) (es : List (Value × Value)) : Option Value :=
  (es.find? fun e => sameKey e.1 k).map (·.2)

/-- Adds an item to a set. -/
def addItem (v : Value) (items : List Value) : List Value :=
  if items.any fun i => sameKey i v then items else items ++ [v]

/-- Does the value count as no content: null, false, zero, or empty? -/
def isBlank : Value → Bool
  | null => true
  | bool b => !b
  | int i => i = 0
  | float x => x.toInt? = some 0
  | str s => s = ""
  | bytes b => b.isEmpty
  | list xs => xs.isEmpty
  | mapping es => es.isEmpty
  | set xs => xs.isEmpty
  | date _ | dateTime _ | pair _ _ => false

/-- The word for the kind of a value. -/
def kindName : Value → String
  | null => "NoneType"
  | bool _ => "bool"
  | int _ => "int"
  | float _ => "float"
  | str _ => "str"
  | bytes _ => "bytes"
  | date _ => "datetime.date"
  | dateTime _ => "datetime.datetime"
  | list _ => "list"
  | mapping _ => "dict"
  | set _ => "set"
  | pair _ _ => "tuple"

/-- Overrides the entries `base` by the entries of a mapping: where both have a mapping under a key,
these are merged in turn, and everywhere else the override's value replaces the other. -/
def merge (base : List (Value × Value)) : List (Value × Value) → List (Value × Value)
  | [] => base
  | (k, v) :: rest =>
    let v' :=
      match entry? k base, v with
      | some (mapping es), mapping changes => mapping (merge es changes)
      | _, v => v
    merge (setEntry k v' base) rest

end Value

end ModulePins
