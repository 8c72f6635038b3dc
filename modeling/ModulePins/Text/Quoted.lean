import ModulePins.Text.Basic
import ModulePins.Text.Printable

/-!
# Quoted texts

How a text is shown inside a message: between single quotes, or between double quotes when it holds
a single quote and no double one. The quote that delimits, the backslash and everything that is not
printable are escaped, so the shown form is always one line.
-/

namespace ModulePins

namespace Text

/-- The quote that delimits a shown text. -/
def delimiter (s : List Char) : Char :=
  if s.contains '\'' && !s.contains '"' then '"' else '\''

/-- One character of a text delimited by `q`. -/
def escapeChar (q c : Char) : String :=
  if c = q then "\\" ++ q.toString
  else if c = '\\' then "\\\\"
  else if c = '\n' then "\\n"
  else if c = '\r' then "\\r"
  else if c = '\t' then "\\t"
  else if isPrintable c then c.toString
  else if c.toNat < 0x100 then "\\x" ++ natDigits 16 2 c.toNat
  else if c.toNat < 0x10000 then "\\u" ++ natDigits 16 4 c.toNat
  else "\\U" ++ natDigits 16 8 c.toNat

/-- The text as messages show it. -/
def quoted (s : String) : String :=
  let q := delimiter s.toList
  q.toString ++ String.join (s.toList.map (escapeChar q)) ++ q.toString

/-- A list of texts as messages show it. -/
def quotedList (xs : List String) : String :=
  "[" ++ join ", " (xs.map quoted) ++ "]"

/-- A list of bytes as messages show it: as a text of ASCII characters, marked `b`. -/
def quotedBytes (bytes : List UInt8) : String :=
  let chars := bytes.map fun b => Char.ofNat b.toNat
  let q := delimiter chars
  let show1 (c : Char) : String :=
    if c.toNat < 0x7f then escapeChar q c else "\\x" ++ natDigits 16 2 c.toNat
  "b" ++ q.toString ++ String.join (chars.map show1) ++ q.toString

/-- A truth value as messages show it. -/
def truth (b : Bool) : String :=
  if b then "True" else "False"

/-- An optional text as messages show it. -/
def quotedOption : Option String → String
  | some s => quoted s
  | none => "None"

end Text

end ModulePins
