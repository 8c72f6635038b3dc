import ModulePins.Yaml.Cursor

/-!
# Plain scalars

A scalar without quotes. It ends at a comment, at a `:` that announces a value, inside brackets at
their punctuation, and on the first line that is indented no deeper than the block it is in. Its
lines are folded like those of quoted scalars.
-/

namespace ModulePins

namespace Yaml

namespace Plain

/-- May a plain scalar start here? `-`, `?` and `:` start one only in front of a character that is
neither blank nor, for the last two, inside brackets. -/
def startsAt (inFlow : Bool) (c : Cursor) : Bool :=
  match c.rest with
  | [] => false
  | d :: s =>
    !(endsToken (some d) || "-?:,[]\x7b\x7d#&*!|>'\"%@`".toList.contains d) ||
      (!endsToken s.head? && (d = '-' || (!inFlow && (d = '?' || d = ':'))))

/-- The characters up to the next blank or the end of the scalar. -/
def word (inFlow : Bool) : List Char → List Char
  | [] => []
  | c :: s =>
    if endsToken (some c) then []
    else if inFlow && ",?[]\x7b\x7d".toList.contains c then []
    else if c = ':' && (endsToken s.head? ||
        (inFlow && (match s.head? with
          | some d => ",[]\x7b\x7d".toList.contains d
          | none => false))) then []
    else c :: word inFlow s

/-- What lies between two words of a scalar. -/
structure Gap where
  /-- The text that the gap folds to; empty if the scalar ends here. -/
  text : List Char
  /-- Was a line end crossed? -/
  crossed : Bool
  /-- Where the next word would start. -/
  after : Cursor
  deriving Repr

/-- Collects further line ends, from the start of a line on; `none` in place of their texts if a
document mark was met. -/
def moreBreaks (breaks : List Char) (c : Cursor) : List Char → Option (List Char) × Cursor
  | [] => (some breaks.reverse, c)
  | d :: s =>
    if d = ' ' then moreBreaks breaks c.next s
    else if isBreak d then
      let c' := c.next
      if c'.atDocumentMark then (none, c') else moreBreaks (breakText d :: breaks) c' s
    else (some breaks.reverse, c)

/-- The gap behind a word. -/
def gap (c : Cursor) : Gap :=
  let blanks := c.rest.takeWhile (· = ' ')
  let c := c.advance blanks.length
  match c.rest with
  | [] => ⟨blanks, false, c⟩
  | d :: _ =>
    if isBreak d then
      let c := c.next
      if c.atDocumentMark then ⟨[], true, c⟩
      else
        match moreBreaks [] c c.rest with
        | (none, c) => ⟨[], true, c⟩
        | (some more, c) =>
          if breakText d ≠ '\n' then ⟨breakText d :: more, true, c⟩
          else ⟨if more.isEmpty then [' '] else more, true, c⟩
    else ⟨blanks, false, c⟩

/-- A plain scalar that was read. -/
structure Scalar where
  text : List Char
  /-- Was a line end crossed behind its last word? -/
  crossed : Bool
  after : Cursor
  deriving Repr

/-- Reads words and gaps; `before` is the gap in front of the next word. Outside brackets a word
counts only at column `indent` or further right. -/
def readFrom (inFlow : Bool) (indent : Int) (text before : List Char) (crossed : Bool)
    (c : Cursor) : Scalar :=
  let w := if c.peek? 0 = some '#' then [] else word inFlow c.rest
  if w.isEmpty then ⟨text, crossed, c⟩
  else
    let g := gap (c.advance w.length)
    let text := text ++ before ++ w
    if g.text.isEmpty || g.after.peek? 0 = some '#' || (!inFlow && (g.after.column : Int) < indent)
    then ⟨text, g.crossed, g.after⟩
    else if g.after.rest.length < c.rest.length then
      readFrom inFlow indent text g.text g.crossed g.after
    else ⟨text, g.crossed, g.after⟩
  termination_by c.rest.length

/-- The plain scalar that starts here. -/
def read (inFlow : Bool) (indent : Int) (c : Cursor) : Scalar :=
  readFrom inFlow indent [] [] false c

end Plain

end Yaml

end ModulePins
