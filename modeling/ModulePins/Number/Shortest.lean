import ModulePins.Number.Double
import ModulePins.Text.Basic

/-!
# Shortest decimal texts

A finite double is written with the fewest digits that read back as the same double, and among
those with the ones nearest to it. `Double.shortest` finds the digits by trying the two neighbours
of the value on the grids of 1, 2, … 17 digits in exact arithmetic. `Double.text` lays them out:
positional from `10 ^ -4` up to `10 ^ 16` and with an exponent of at least two digits elsewhere.
-/

namespace ModulePins

/-- A decimal `digits * 10 ^ exponent`. -/
structure Decimal where
  digits : Nat
  exponent : Int
  deriving DecidableEq, Repr

namespace Double

/-- Twice the bounds of the interval of reals that round to the double of `units` units: halfway
to its neighbours, and closer below a power of two. Counted in quarter units, so all are whole. -/
def roundingInterval (units : Nat) : Nat × Nat :=
  let shift := units.log2 - 52
  let half := 2 * twoPow shift
  let below := if units = twoPow (52 + shift) && 0 < shift then half / 2 else half
  (4 * units - below, 4 * units + half)

/-- Does the significand end in an even digit, so that the interval holds its ends? -/
def hasEvenSignificand (units : Nat) : Bool :=
  units / twoPow (units.log2 - 52) % 2 = 0

/-- The power of ten just below or at the positive double of `units` units. -/
def decimalExponent (units : Nat) : Int :=
  ((toString (units * tenPow 400 / unitsOfOne)).length : Int) - 401

/-- The neighbour of the value on the grid of multiples of `10 ^ exponent` that reads back as the
value; the nearer one if both do, and the even one on a tie. -/
def onGrid? (units : Nat) (exponent : Int) : Option Decimal :=
  -- both sides scaled: a grid point `d` is `d * up` against `down` per quarter unit
  let up := 4 * unitsOfOne * tenPow exponent.toNat
  let down := tenPow (-exponent).toNat
  let (low, high) := roundingInterval units
  let even := hasEvenSignificand units
  let inside (d : Nat) : Bool :=
    let x := d * up
    if even then low * down ≤ x && x ≤ high * down else low * down < x && x < high * down
  let value := 4 * units * down
  let d := value / up
  let candidates := [d, d + 1].filter inside
  match candidates with
  | [] => none
  | [c] => some ⟨c, exponent⟩
  | _ =>
    let before := value - d * up
    let after := (d + 1) * up - value
    if before < after then some ⟨d, exponent⟩
    else if after < before then some ⟨d + 1, exponent⟩
    else some ⟨if d % 2 = 0 then d else d + 1, exponent⟩

/-- The fewest digits that read back as the positive double of `units` units. -/
def shortest (units : Nat) : Decimal :=
  let k := decimalExponent units
  ((List.range 17).findSome? fun (n : Nat) => onGrid? units (k - n)).getD ⟨0, 0⟩

/-- Lays out digits whose first one stands for `10 ^ k`. -/
def layOut (digits : List Char) (k : Int) : String :=
  if -4 ≤ k ∧ k < 16 then
    if k < 0 then
      "0." ++ String.ofList (List.replicate (-k - 1).toNat '0' ++ digits)
    else
      let whole := digits.take (k.toNat + 1)
      let whole := whole ++ List.replicate (k.toNat + 1 - whole.length) '0'
      let rest := digits.drop (k.toNat + 1)
      String.ofList whole ++ "." ++ (if rest.isEmpty then "0" else String.ofList rest)
  else
    let tail := digits.drop 1
    let mantissa := String.ofList (digits.take 1) ++
      (if tail.isEmpty then "" else "." ++ String.ofList tail)
    let sign := if k < 0 then "-" else "+"
    mantissa ++ "e" ++ sign ++ Text.natDigits 10 2 k.natAbs

/-- The text of a double. -/
def text (x : Double) : String :=
  match x.view with
  | .nan => "nan"
  | .infinite negative => if negative then "-inf" else "inf"
  | .finite negative units =>
    let sign := if negative then "-" else ""
    if units = 0 then sign ++ "0.0"
    else
      let s := shortest units
      let digits := (toString s.digits).toList
      let k := s.exponent + (digits.length : Int) - 1
      let trimmed := (digits.reverse.dropWhile (· = '0')).reverse
      sign ++ layOut trimmed k

end Double

end ModulePins
