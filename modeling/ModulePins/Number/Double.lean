/-!
# Double-precision numbers

A `Double` is the bit pattern of a 64-bit binary floating-point number, so that two values are
equal exactly when their texts are. Every finite double is a whole number of *units* of `2 ^ -1074`,
the smallest positive one; decoding goes to units, and `Double.ofRatio` rounds an exact ratio to
the nearest double, ties to the even significand.
-/

namespace ModulePins

/-- A 64-bit floating-point number, by its bit pattern. -/
structure Double where
  bits : UInt64
  deriving DecidableEq, Repr, Inhabited

namespace Double

/-- What a bit pattern stands for; a finite magnitude counts units of `2 ^ -1074`. -/
inductive View where
  | finite (negative : Bool) (units : Nat)
  | infinite (negative : Bool)
  | nan
  deriving DecidableEq, Repr

/-- A power of two. -/
def twoPow (n : Nat) : Nat := Nat.pow 2 n

/-- A power of ten. -/
def tenPow (n : Nat) : Nat := Nat.pow 10 n

/-- How many units one is. -/
def unitsOfOne : Nat := twoPow 1074

/-- Decodes the sign, exponent and fraction fields. -/
def view (x : Double) : View :=
  let n := x.bits.toNat
  let negative := decide (twoPow 63 ≤ n)
  let exponent := n / twoPow 52 % twoPow 11
  let fraction := n % twoPow 52
  if exponent = 2047 then (if fraction = 0 then .infinite negative else .nan)
  else if exponent = 0 then .finite negative fraction
  else .finite negative ((twoPow 52 + fraction) * twoPow (exponent - 1))

/-- The pattern with the given fields. -/
def ofFields (negative : Bool) (exponent fraction : Nat) : Double :=
  ⟨UInt64.ofNat ((if negative then twoPow 63 else 0) + exponent * twoPow 52 + fraction)⟩

def infinity (negative : Bool) : Double := ofFields negative 2047 0

def nan : Double := ofFields false 2047 (twoPow 51)

/-- The one not-a-number that every mention of a name for it stands for. -/
def namedNan : Double := ofFields true 2047 (twoPow 51)

def zero (negative : Bool) : Double := ofFields negative 0 0

/-- The quotient rounded to the nearest whole number, a tie to the even one. -/
def divNearest (n d : Nat) : Nat :=
  let q := n / d
  let r := n % d
  if 2 * r < d then q else if d < 2 * r then q + 1 else if q % 2 = 0 then q else q + 1

/-- The double nearest to `num / den`, for a positive `den`. -/
def ofRatio (negative : Bool) (num den : Nat) : Double :=
  let n := num * unitsOfOne
  let shift := (n / den).log2 - 52
  let m := divNearest n (den * twoPow shift)
  if m < twoPow 52 then ofFields negative 0 m
  else
    let (m, shift) := if m = twoPow 53 then (twoPow 52, shift + 1) else (m, shift)
    if 2046 < shift + 1 then infinity negative
    else ofFields negative (shift + 1) (m - twoPow 52)

/-- The double nearest to `digits * 10 ^ exponent`. Exponents beyond all doubles are cut off, so
that a short text with a huge exponent costs nothing. -/
def ofDecimal (negative : Bool) (digits : Nat) (exponent : Int) : Double :=
  let size := (toString digits).length + exponent
  if digits = 0 then zero negative
  else if 400 < size then infinity negative
  else if size < -400 then zero negative
  else if 0 ≤ exponent then ofRatio negative (digits * tenPow exponent.toNat) 1
  else ofRatio negative digits (tenPow (-exponent).toNat)

/-- The double nearest to a whole number. -/
def ofInt (i : Int) : Double :=
  ofRatio (decide (i < 0)) i.natAbs 1

/-- The whole number that the double equals, if it is one. -/
def toInt? (x : Double) : Option Int :=
  match x.view with
  | .finite negative units =>
    if units % unitsOfOne = 0 then
      let n : Int := (units / unitsOfOne : Nat)
      some (if negative then -n else n)
    else none
  | _ => none

def neg (x : Double) : Double := ⟨x.bits ^^^ 0x8000000000000000⟩

def add (x y : Double) : Double := ⟨(Float.ofBits x.bits + Float.ofBits y.bits).toBits⟩

def mul (x y : Double) : Double := ⟨(Float.ofBits x.bits * Float.ofBits y.bits).toBits⟩

end Double

end ModulePins
