import ModulePins.Number.Double
import ModulePins.Text.Basic

/-!
# Reading numbers

Whole numbers and floating-point numbers from free-standing texts: blanks around them do not
count, a sign may stand in front, and single underscores may stand between digits.

* `Number.readInt?` — a whole number in a given base, with or without the mark `0b`, `0o`, `0x` of
  that base;
* `Number.readDouble?` — a decimal number, an infinity or a not-a-number.
-/

namespace ModulePins

namespace Number

/-- The most digits that a decimal whole number may have. -/
def maxDigits : Nat := 4300

/-- Has the number at most `maxDigits` decimal digits? -/
def isReadable (i : Int) : Bool := decide (i.natAbs < Double.tenPow maxDigits)

/-- Takes off a leading sign: is it a minus, and the rest. -/
def takeSign : List Char → Bool × List Char
  | '-' :: s => (true, s)
  | '+' :: s => (false, s)
  | s => (false, s)

/-- Removes single underscores that have a character on both sides; `none` if one stands at an end
or next to another. -/
def dropUnderscores? : List Char → Option (List Char)
  | [] => some []
  | '_' :: _ => none
  | [c] => some [c]
  | c :: '_' :: s =>
    match s with
    | [] => none
    | _ => (dropUnderscores? s).map (c :: ·)
  | c :: s => (dropUnderscores? s).map (c :: ·)

/-- Takes off the mark of a base; an underscore may follow the mark. -/
def takeBaseMark (base : Nat) (s : List Char) : List Char :=
  match s with
  | '0' :: m :: rest =>
    let own :=
      (base = 2 && (m = 'b' || m = 'B')) || (base = 8 && (m = 'o' || m = 'O')) ||
        (base = 16 && (m = 'x' || m = 'X'))
    if own then (match rest with | '_' :: r => r | r => r) else s
  | _ => s

/-- The whole number that a text writes in a base. -/
def readInt? (base : Nat) (s : List Char) : Option Int :=
  let (negative, body) := takeSign (Text.trim s)
  match dropUnderscores? (takeBaseMark base body) with
  | some (d :: ds) =>
    (Text.readNat? base (d :: ds)).map fun n => if negative then -(n : Int) else n
  | _ => none

/-- Lower case for the letters `A` to `Z`. -/
def lowerAscii (s : List Char) : List Char := s.map Char.toLower

/-- A decimal number without sign: digits, a fraction, an exponent. -/
def readUnsigned? (negative : Bool) (s : List Char) : Option Double :=
  let whole := s.takeWhile Char.isDigit
  let rest := s.dropWhile Char.isDigit
  let (fraction, rest) :=
    match rest with
    | '.' :: r => (r.takeWhile Char.isDigit, r.dropWhile Char.isDigit)
    | r => ([], r)
  if whole.isEmpty && fraction.isEmpty then none
  else
    let exponent? : Option Int :=
      match rest with
      | [] => some 0
      | e :: r =>
        if e = 'e' || e = 'E' then
          let (down, ds) := takeSign r
          if ds.isEmpty then none
          else (Text.readNat? 10 ds).map fun n => if down then -(n : Int) else n
        else none
    match exponent?, Text.readNat? 10 (whole ++ fraction) with
    | some e, some n => some (Double.ofDecimal negative n (e - fraction.length))
    | _, _ => none

/-- The floating-point number that a text writes. -/
def readDouble? (s : List Char) : Option Double :=
  let (negative, body) := takeSign (Text.trim s)
  let word := String.ofList (lowerAscii body)
  if word = "inf" || word = "infinity" then some (Double.infinity negative)
  else if word = "nan" then some Double.nan
  else
    match dropUnderscores? body with
    | some ds => readUnsigned? negative ds
    | none => none

end Number

end ModulePins
