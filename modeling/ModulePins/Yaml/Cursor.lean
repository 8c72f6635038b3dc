import ModulePins.Yaml.Char

/-!
# Cursor

A place in a text: what lies ahead, how many characters lie behind, and the line and column they
add up to. A byte-order mark takes up no column.
-/

namespace ModulePins

namespace Yaml

/-- A place in a text. -/
structure Cursor where
  rest : List Char
  index : Nat
  line : Nat
  column : Nat
  deriving Repr, Inhabited

namespace Cursor

def ofText (s : List Char) : Cursor := ⟨s, 0, 0, 0⟩

/-- The character `k` places ahead. -/
def peek? (c : Cursor) (k : Nat) : Option Char := c.rest[k]?

/-- One character on. -/
def next (c : Cursor) : Cursor :=
  match c.rest with
  | [] => c
  | d :: s =>
    if isBreak d then ⟨s, c.index + 1, c.line + 1, 0⟩
    else if d = byteOrderMark then ⟨s, c.index + 1, c.line, c.column⟩
    else ⟨s, c.index + 1, c.line, c.column + 1⟩

/-- `n` characters on. -/
def advance (c : Cursor) : Nat → Cursor
  | 0 => c
  | n + 1 => c.next.advance n

/-- The cursor at the later place where `rest` remains. -/
def moveTo (c : Cursor) (rest : List Char) : Cursor := c.advance (c.rest.length - rest.length)

/-- Are the next characters `---` or `...`, followed by the end of a token? -/
def atDocumentMark (c : Cursor) : Bool :=
  match c.rest with
  | a :: b :: d :: s =>
    ((a = '-' && b = '-' && d = '-') || (a = '.' && b = '.' && d = '.')) && endsToken s.head?
  | _ => false

end Cursor

/-- The text of a line end: all but the two Unicode separators become `\n`. -/
def breakText (c : Char) : Char :=
  if c = '\u2028' || c = '\u2029' then c else '\n'

end Yaml

end ModulePins
