import ModulePins.Yaml.Token.Word

/-!
# Block scalars

A scalar of whole lines behind `|` or `>`. The header may give an indentation and say what becomes
of the line ends at the end: `-` drops all, `+` keeps all, and otherwise one stays. The lines are
those indented at least as far as the scalar; behind `>` a line end between two lines that both
start with text is folded to a blank.
-/

namespace ModulePins

namespace Yaml

namespace Block

/-- What becomes of the line ends at the end of the scalar. -/
inductive Chomping where
  | strip
  | clip
  | keep
  deriving DecidableEq, Repr

/-- The header of a block scalar. -/
structure Header where
  chomping : Chomping
  increment : Option Nat
  deriving DecidableEq, Repr

/-- An indentation digit; zero is refused. -/
def increment? (c : Char) : Option (Option Nat) :=
  match Text.digitValue? 10 c with
  | some 0 => some none
  | some n => some (some n)
  | none => none

def chomping? (c : Char) : Option Chomping :=
  if c = '+' then some .keep else if c = '-' then some .strip else none

/-- The header from behind the mark of the scalar, with the rest of its line. -/
def readHeader (s : List Char) : Except Fault (Header × List Char) := do
  let chomp (s : List Char) : Option (Chomping × List Char) :=
    match s with
    | c :: r => (chomping? c).map fun h => (h, r)
    | [] => none
  let indent (s : List Char) : Except Fault (Option Nat × List Char) :=
    match s with
    | c :: r =>
      match increment? c with
      | some (some n) => .ok (some n, r)
      | some none => .error .malformed
      | none => .ok (none, s)
    | [] => .ok (none, s)
  let (h, r) ←
    match chomp s with
    | some (c, r) => do
      let (i, r) ← indent r
      pure (Header.mk c i, r)
    | none => do
      let (i, r) ← indent s
      match i, chomp r with
      | some _, some (c, r) => pure (Header.mk c i, r)
      | _, _ => pure (Header.mk .clip i, r)
  if endsWord r.head? then return (h, ← Token.skipLineEnd r) else Token.malformed

/-- The empty lines from the start of a line on: the deepest column their blanks reach, their line
ends, and the rest at the first other character. `column` counts the blanks of the line so far. -/
def leadingLines (deepest column : Nat) (breaks : List Char) :
    List Char → Nat × List Char × List Char
  | [] => (deepest, breaks.reverse, [])
  | c :: s =>
    if c = ' ' then leadingLines (max deepest (column + 1)) (column + 1) breaks s
    else if isBreak c then leadingLines deepest 0 (breakText c :: breaks) s
    else (deepest, breaks.reverse, c :: s)

/-- Skips empty lines and then up to `indent` blanks: the line ends, the column reached, and the
rest. -/
def skipLines (indent column : Nat) (breaks : List Char) : List Char → List Char × Nat × List Char
  | [] => (breaks.reverse, column, [])
  | c :: s =>
    if c = ' ' && column < indent then skipLines indent (column + 1) breaks s
    else if isBreak c then skipLines indent 0 (breakText c :: breaks) s
    else (breaks.reverse, column, c :: s)

/-- Does the text start with a blank or a tab? -/
def startsBlank : List Char → Bool
  | c :: _ => c = ' ' || c = '\t'
  | [] => false

/-- Reads the lines of a scalar from the start of the first one on, which stands at column
`column`. `breaks` are the line ends in front of it. -/
def readLines (folded : Bool) (chomping : Chomping) (indent column : Nat) (breaks : List Char)
    (s : List Char) : List Char × List Char :=
  let finish (last : List Char) (breaks : List Char) : List Char :=
    match chomping with
    | .strip => []
    | .clip => last
    | .keep => last ++ breaks
  if column ≠ indent || s.isEmpty then (finish [] breaks, s)
  else
    let line := s.takeWhile fun c => !isBreak c
    let r := s.dropWhile fun c => !isBreak c
    let (last, r) :=
      match r with
      | c :: r => ([breakText c], r)
      | [] => ([], [])
    let (more, column', r) := skipLines indent 0 [] r
    if column' = indent && !r.isEmpty then
      let joint :=
        if folded && last = ['\n'] && !startsBlank s && !startsBlank r then
          (if more.isEmpty then [' '] else [])
        else last
      if r.length < s.length then
        let (text, r) := readLines folded chomping indent column' more r
        (breaks ++ line ++ joint ++ text, r)
      else (breaks ++ line, r)
    else (breaks ++ line ++ finish last more, r)
  termination_by s.length

/-- A block scalar from behind its mark, in a block at column `parent` (−1 outside all blocks), and
the rest from the start of the line behind it. -/
def read (folded : Bool) (parent : Int) (s : List Char) :
    Except Fault (List Char × List Char) := do
  let (h, r) ← readHeader s
  let least := max 1 (parent + 1).toNat
  match h.increment with
  | some n =>
    let indent := least + n - 1
    let (breaks, column, r) := skipLines indent 0 [] r
    return readLines folded h.chomping indent column breaks r
  | none =>
    let (deepest, breaks, r') := leadingLines 0 0 [] r
    let indent := max least deepest
    let column := (r.take (r.length - r'.length)).reverse.takeWhile (· = ' ') |>.length
    return readLines folded h.chomping indent column breaks r'

end Block

end Yaml

end ModulePins
