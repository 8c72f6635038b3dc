import ModulePins.Text.Basic

/-!
# Base 64

Reading bytes that are written with 64 characters, six bits each. Characters outside the alphabet
do not count. Padding ends the text once it completes a group of four; a group that is left
incomplete is an error.
-/

namespace ModulePins

namespace Text

namespace Base64

/-- The six bits that a character stands for. -/
def sextet? (c : Char) : Option Nat :=
  if 'A' ≤ c && c ≤ 'Z' then some (c.toNat - 'A'.toNat)
  else if 'a' ≤ c && c ≤ 'z' then some (c.toNat - 'a'.toNat + 26)
  else if '0' ≤ c && c ≤ '9' then some (c.toNat - '0'.toNat + 52)
  else if c = '+' then some 62
  else if c = '/' then some 63
  else none

/-- Reads on with `got` characters of the current group read, which left `left` bits behind them,
and with `pads` padding characters since the last one. -/
def decodeFrom (got left pads : Nat) : List Char → Option (List UInt8)
  | [] => if got = 0 then some [] else none
  | c :: s =>
    if c = '=' then
      if 2 ≤ got && 4 ≤ got + (pads + 1) then some []
      else decodeFrom got left (if 2 ≤ got then pads + 1 else pads) s
    else
      match sextet? c with
      | none => decodeFrom got left pads s
      | some x =>
        match got with
        | 0 => decodeFrom 1 x 0 s
        | 1 => (decodeFrom 2 (x % 16) 0 s).map (UInt8.ofNat (left * 4 + x / 16) :: ·)
        | 2 => (decodeFrom 3 (x % 4) 0 s).map (UInt8.ofNat (left * 16 + x / 4) :: ·)
        | _ => (decodeFrom 0 0 0 s).map (UInt8.ofNat (left * 64 + x) :: ·)

/-- The bytes that a text writes. -/
def decode (s : List Char) : Option (List UInt8) := decodeFrom 0 0 0 s

end Base64

end Text

end ModulePins
