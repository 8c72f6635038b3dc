import ModulePins.Json.Basic
import ModulePins.Number.Shortest

/-!
# Printing JSON

One item or member a line, each level indented by two more blanks, empty collections closed at
once. In texts the quote, the backslash and the controls are escaped; a `Charset` says whether
other characters beyond ASCII are written as they are or as escapes of their UTF-16 units.

* `Json.Charset.escape` — one character of a text;
* `Json.print` — the characters of a value.
-/

namespace ModulePins

namespace Json

/-- The characters that printed texts may hold. -/
inductive Charset where
  | unicode
  | ascii
  deriving DecidableEq, Repr

/-- The escape of one UTF-16 unit. -/
def escapeUnit (n : Nat) : List Char := '\\' :: 'u' :: (Text.natDigits 16 4 n).toList

/-- The escapes of the UTF-16 units of a code point. -/
def escapeUnits (n : Nat) : List Char :=
  if n < 0x10000 then escapeUnit n
  else
    escapeUnit (0xd800 + (n - 0x10000) / 0x400) ++ escapeUnit (0xdc00 + (n - 0x10000) % 0x400)

/-- One character of a text. -/
def Charset.escape (cs : Charset) (c : Char) : List Char :=
  if c = '"' then ['\\', '"']
  else if c = '\\' then ['\\', '\\']
  else if c = '\n' then ['\\', 'n']
  else if c = '\r' then ['\\', 'r']
  else if c = '\t' then ['\\', 't']
  else if c = '\x08' then ['\\', 'b']
  else if c = '\x0c' then ['\\', 'f']
  else if c.toNat < 0x20 then escapeUnit c.toNat
  else if cs = .ascii && 0x7f ≤ c.toNat then escapeUnits c.toNat
  else [c]

/-- A text between quotes. -/
def printText (cs : Charset) (s : String) : List Char :=
  '"' :: s.toList.flatMap cs.escape ++ ['"']

/-- A line end and the indentation of a level. -/
def newline (level : Nat) : List Char := '\n' :: List.replicate (2 * level) ' '

/-- A floating-point number; not-a-number and the infinities have names. -/
def printDouble (x : Double) : List Char :=
  match x.view with
  | .nan => "NaN".toList
  | .infinite negative => (if negative then "-Infinity" else "Infinity").toList
  | .finite _ _ => x.text.toList

mutual

/-- A value at a level of indentation. -/
def printAt (cs : Charset) (level : Nat) : Json → List Char
  | null => "null".toList
  | bool b => (if b then "true" else "false").toList
  | int i => (toString i).toList
  | float x => printDouble x
  | str s => printText cs s
  | array [] => ['[', ']']
  | array (x :: xs) =>
    '[' :: newline (level + 1) ++ printAt cs (level + 1) x ++ printItems cs (level + 1) xs ++
      newline level ++ [']']
  | object [] => ['{', '}']
  | object ((k, v) :: ms) =>
    '{' :: newline (level + 1) ++ printText cs k ++ [':', ' '] ++ printAt cs (level + 1) v ++
      printMembers cs (level + 1) ms ++ newline level ++ ['}']

/-- The items of an array behind the first. -/
def printItems (cs : Charset) (level : Nat) : List Json → List Char
  | [] => []
  | x :: xs => ',' :: newline level ++ printAt cs level x ++ printItems cs level xs

/-- The members of an object behind the first. -/
def printMembers (cs : Charset) (level : Nat) : List (String × Json) → List Char
  | [] => []
  | (k, v) :: ms =>
    ',' :: newline level ++ printText cs k ++ [':', ' '] ++ printAt cs level v ++
      printMembers cs level ms

end

/-- The characters of a value. -/
def print (cs : Charset) (v : Json) : List Char := printAt cs 0 v

/-- The text of a value. -/
def toText (cs : Charset) (v : Json) : String := String.ofList (v.print cs)

end Json

end ModulePins
