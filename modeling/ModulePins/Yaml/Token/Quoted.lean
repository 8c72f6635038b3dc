import ModulePins.Yaml.Token.Word

/-!
# Quoted scalars

A scalar between quotes. Between single quotes only the doubled quote is special; between double
quotes a backslash starts an escape. In both, blanks around a line end vanish: a single line end
becomes one blank, and of several in a row all but the first remain. No line inside may begin with
a document mark.
-/

namespace ModulePins

namespace Yaml

namespace Token

/-- The single characters that may follow a backslash, and what they stand for. -/
def escapes : List (Char × Char) :=
  [('0', '\x00'), ('a', '\x07'), ('b', '\x08'), ('t', '\t'), ('\t', '\t'), ('n', '\n'),
   ('v', '\x0b'), ('f', '\x0c'), ('r', '\r'), ('e', '\x1b'), (' ', ' '), ('"', '"'),
   ('\\', '\\'), ('/', '/'), ('N', '\x85'), ('_', '\xa0'), ('L', '\u2028'), ('P', '\u2029')]

/-- The number of hexadecimal digits that follow `\x`, `\u` and `\U`. -/
def codeLength? (c : Char) : Option Nat :=
  if c = 'x' then some 2 else if c = 'u' then some 4 else if c = 'U' then some 8 else none

/-- The character with a code; half of a surrogate pair has none and is replaced. -/
def charOfCode (code : Nat) : Except Fault Char :=
  if 0x7fffffff < code then .error (.value .hugeCharacter)
  else if 0x10ffff < code then .error (.value .noCharacter)
  else if 0xd800 ≤ code ∧ code ≤ 0xdfff then .ok '\ufffd'
  else .ok (Char.ofNat code)

/-- Does the line begin with a document mark? -/
def atMark (s : List Char) : Bool := (Cursor.ofText s).atDocumentMark

/-- The line ends from the start of a line on, blanks around them skipped, and the rest. -/
def readBreaks (lineStart : Bool) (breaks : List Char) (s : List Char) :
    Except Fault (List Char × List Char) :=
  if lineStart && atMark s then malformed
  else
    match s with
    | [] => .ok (breaks.reverse, [])
    | c :: s' =>
      if c = ' ' || c = '\t' then readBreaks false breaks s'
      else if isBreak c then readBreaks true (breakText c :: breaks) s'
      else .ok (breaks.reverse, c :: s')

/-- What a line end and the further ones after it fold to. -/
def fold (first : Char) (more : List Char) : List Char :=
  if breakText first ≠ '\n' then breakText first :: more
  else if more.isEmpty then [' '] else more

/-- The outcome of one piece of a quoted scalar. -/
inductive Piece where
  /-- Characters of the text, and the rest behind them. -/
  | text (chars rest : List Char)
  /-- The closing quote, and the rest behind it. -/
  | closed (rest : List Char)
  deriving Repr

/-- The escape behind a backslash. -/
def readEscape (s : List Char) : Except Fault (List Char × List Char) :=
  match s with
  | [] => malformed
  | c :: s' =>
    match escapes.lookup c, codeLength? c with
    | some d, _ => .ok ([d], s')
    | none, some n =>
      let digits := s'.take n
      match Text.readNat? 16 digits with
      | some code =>
        if digits.length = n then do return ([← charOfCode code], s'.drop n) else malformed
      | none => malformed
    | none, none => if isBreak c then readBreaks true [] s' else malformed

/-- The next piece of a scalar in double or single quotes. -/
def readPiece (double : Bool) (s : List Char) : Except Fault Piece :=
  let quote := if double then '"' else '\''
  match s with
  | [] => malformed
  | c :: s' =>
    if c = quote then
      match double, s' with
      | false, '\'' :: s'' => .ok (.text ['\''] s'')
      | _, _ => .ok (.closed s')
    else if c = ' ' || c = '\t' || isBreak c then
      let blanks := s.takeWhile fun d => d = ' ' || d = '\t'
      match s.dropWhile fun d => d = ' ' || d = '\t' with
      | [] => malformed
      | d :: r =>
        if isBreak d then do
          let (more, r) ← readBreaks true [] r
          return .text (fold d more) r
        else .ok (.text blanks (d :: r))
    else if double && c = '\\' then do
      let (chars, r) ← readEscape s'
      return .text chars r
    else .ok (.text [c] s')

/-- The text of a quoted scalar from behind its opening quote, and the rest behind the closing
one. -/
def readQuoted (double : Bool) (s : List Char) : Except Fault (List Char × List Char) :=
  match readPiece double s with
  | .error e => .error e
  | .ok (.closed r) => .ok ([], r)
  | .ok (.text chars r) =>
    if r.length < s.length then do
      let (more, r') ← readQuoted double r
      return (chars ++ more, r')
    else malformed
  termination_by s.length

end Token

end Yaml

end ModulePins
