import ModulePins.Calendar
import ModulePins.Json.Basic
import ModulePins.Number.Reading

/-!
# Time stamps

A stamp is a date-time that exists. In data it is written as a date, as a date with a time of day
and perhaps an offset, or as the number of seconds or milliseconds since the start of 1970.

* `Stamp.text` — the form in which stamps are written;
* `Stamp.ofText?`, `Stamp.ofJson?` — the forms in which they are read.
-/

namespace ModulePins

namespace DateTime

/-- Are all fields in range? -/
def isSound (t : DateTime) : Bool := t.check.isNone && decide (t.microsecond < 1000000)

end DateTime

/-- A date-time whose fields are in range. -/
abbrev Stamp := { t : DateTime // t.isSound = true }

namespace Stamp

/-- The date-time as a stamp. -/
def of? (t : DateTime) : Option Stamp := if h : t.isSound = true then some ⟨t, h⟩ else none

/-- The start of 1970 in universal time. -/
def epoch : Stamp := ⟨⟨⟨1970, 1, 1⟩, 0, 0, 0, 0, some 0⟩, by decide⟩

instance : Inhabited Stamp := ⟨epoch⟩

/-- The text of a stamp: the ISO form, with `Z` for universal time. -/
def text (s : Stamp) : String :=
  match s.val.offset with
  | some 0 => DateTime.iso { s.val with offset := none } ++ "Z"
  | _ => s.val.iso

/-! ### Reading texts -/

/-- The number that two digits write. -/
def two? (a b : Char) : Option Nat := Text.readNat? 10 [a, b]

/-- A date of ten characters, and the rest. -/
def readDate? : List Char → Option (Date × List Char)
  | y₁ :: y₂ :: y₃ :: y₄ :: '-' :: m₁ :: m₂ :: '-' :: d₁ :: d₂ :: s => do
    let date : Date := ⟨← Text.readNat? 10 [y₁, y₂, y₃, y₄], ← two? m₁ m₂, ← two? d₁ d₂⟩
    return (date, s)
  | _ => none

/-- Microseconds from the digits of a fraction, of which six count. -/
def microseconds? (digits : List Char) : Option Nat :=
  if digits.isEmpty then none
  else
    let used := digits.take 6
    (Text.readNat? 10 used).map fun n => n * Double.tenPow (6 - used.length)

/-- The fraction of a second, if one follows, and the rest. -/
def readFraction? : List Char → Option (Nat × List Char)
  | c :: s =>
    if c = '.' || c = ',' then
      (microseconds? (s.takeWhile Char.isDigit)).map fun n => (n, s.dropWhile Char.isDigit)
    else some (0, c :: s)
  | [] => some (0, [])

/-- The seconds of a time, if they follow, and the rest. -/
def readSeconds? : List Char → Option (Nat × Nat × List Char)
  | ':' :: s =>
    match s with
    | s₁ :: s₂ :: s => do
      let (fraction, s) ← readFraction? s
      return (← two? s₁ s₂, fraction, s)
    | _ => none
  | s => some (0, 0, s)

/-- An offset from universal time that ends the text, in minutes. -/
def readOffset? : List Char → Option (Option Int)
  | [] => some none
  | ['Z'] | ['z'] => some (some 0)
  | sign :: h₁ :: h₂ :: s => do
    let negative ←
      if sign = '+' then some false else if sign = '-' || sign = '−' then some true else none
    let minutes ←
      match s with
      | [':', m₁, m₂] | [m₁, m₂] => two? m₁ m₂
      | _ => none
    if 59 < minutes then none
    let o : Int := ((← two? h₁ h₂) * 60 + minutes : Nat)
    return some (if negative then -o else o)
  | _ => none

/-- The date-time that a text writes: a date, and perhaps a time of day behind a separator. -/
def readDateTime? (s : List Char) : Option DateTime := do
  let (date, s) ← readDate? s
  match s with
  | [] => return ⟨date, 0, 0, 0, 0, none⟩
  | sep :: h₁ :: h₂ :: ':' :: m₁ :: m₂ :: s =>
    if ['T', 't', ' ', '_'].contains sep then
      let (second, microsecond, s) ← readSeconds? s
      return ⟨date, ← two? h₁ h₂, ← two? m₁ m₂, second, microsecond, ← readOffset? s⟩
    else none
  | _ => none

/-! ### Reading numbers -/

/-- The date that lies `days` days after the first day of year 1. -/
def dateAfter (days : Nat) : Date :=
  let (centuries, rest) := (days / 146097, days % 146097)
  let year := 400 * centuries + yearIn rest + 1
  let day := days - Date.ordinal ⟨year, 1, 1⟩
  let month := ((List.range 12).filter fun m => Date.ordinal ⟨year, m + 1, 1⟩ ≤ days).length
  ⟨year, month, day - (Date.ordinal ⟨year, month, 1⟩ - Date.ordinal ⟨year, 1, 1⟩) + 1⟩
where
  /-- The number of full years in the days of a span of 400 years. -/
  yearIn (rest : Nat) : Nat :=
    let guess := rest / 365
    if Date.ordinal ⟨guess + 1, 1, 1⟩ ≤ rest then guess else guess - 1

/-- Numbers beyond this one count milliseconds. -/
def secondsLimit : Nat := 20000000000

/-- The first moment that a number may stand for, in seconds of 1970: the start of 1600. -/
def firstSecond : Int := -11676096000

/-- The last moment that a number may stand for: the end of 9999. -/
def lastSecond : Int := 253402300799

/-- The stamp of a number of seconds or milliseconds. -/
def ofNumber? (n : Int) : Option Stamp :=
  let (seconds, microseconds) :=
    if n.natAbs ≤ secondsLimit then (n, 0)
    else (Int.fdiv n 1000, (Int.fmod n 1000).toNat * 1000)
  if seconds < firstSecond ∨ lastSecond < seconds then none
  else
    let all := (seconds + 62135596800).toNat
    let time := all % 86400
    of? ⟨dateAfter (all / 86400), time / 3600, time / 60 % 60, time % 60, microseconds, some 0⟩

/-- The whole number just below a double. -/
def floor? (x : Double) : Option Int :=
  match x.view with
  | .finite negative units =>
    let unit := Double.unitsOfOne
    some (if negative then -((units + unit - 1) / unit : Nat) else (units / unit : Nat))
  | _ => none

/-- The number that a text writes, rounded down: digits behind a sign, or a number with a point. -/
def readNumber? (s : List Char) : Option Int :=
  let (negative, body) := Number.takeSign s
  match body.dropWhile Char.isDigit with
  | [] =>
    if body.isEmpty then none
    else (Text.readNat? 10 body).map fun n => if negative then -(n : Int) else n
  | '.' :: _ => (Number.readUnsigned? negative body).bind floor?
  | _ => none

/-- The stamp that a text writes. -/
def ofText? (s : String) : Option Stamp :=
  match (readDateTime? s.toList).bind of? with
  | some t => some t
  | none => (readNumber? s.toList).bind ofNumber?

/-- The stamp that a value writes. -/
def ofJson? : Json → Option Stamp
  | .str s => ofText? s
  | .int i => ofNumber? i
  | .float x => (floor? x).bind ofNumber?
  | _ => none

end Stamp

end ModulePins
