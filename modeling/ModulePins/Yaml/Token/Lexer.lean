import ModulePins.Yaml.Token.Block
import ModulePins.Yaml.Token.Plain
import ModulePins.Yaml.Token.Quoted

/-!
# From text to tokens

The lexer walks through a text once. Besides the cursor it keeps the columns of the open blocks,
the depth of open brackets, whether a simple key may start here, and the simple keys that may still
turn out to be keys: a simple key is only known as one when its `:` comes, and then its mark is put
in front of the tokens it consists of.

* `Lexer.step` — the next token with the marks that come with it;
* `Yaml.tokens` — all tokens of a text. If a step fails, the list ends in a `fault` token, in front
  of the first token that was not yet certain.
-/

namespace ModulePins

namespace Yaml

/-- A token that may turn out to begin a simple key. -/
structure PendingKey where
  /-- The number of tokens in front of it. -/
  position : Nat
  /-- It stands where the block demands a key. -/
  required : Bool
  index : Nat
  line : Nat
  column : Nat
  deriving DecidableEq, Repr

/-- The state between two tokens. -/
structure Lexer where
  cursor : Cursor
  /-- The tokens so far, newest first. -/
  back : List Token
  /-- The depth of open brackets. -/
  flow : Nat
  /-- The column of the innermost block, −1 outside all blocks. -/
  indent : Int
  /-- The columns of the blocks around it. -/
  outer : List Int
  keyAllowed : Bool
  /-- The pending simple keys by depth of brackets. -/
  pending : List (Nat × PendingKey)
  deriving Repr

namespace Lexer

def ofText (s : List Char) : Lexer :=
  ⟨Cursor.ofText s, [], 0, -1, [], true, []⟩

/-- The longest simple key, in characters. -/
def keyLimit : Nat := 1024

def emit (l : Lexer) (t : Token) : Lexer := { l with back := t :: l.back }

/-- Puts a token in front of the token number `position`. -/
def insert (l : Lexer) (position : Nat) (t : Token) : Lexer :=
  { l with back := l.back.insertIdx (l.back.length - position) t }

/-- Can a pending key no longer become a key? It has to lie on the line of the cursor. -/
def isStale (c : Cursor) (k : PendingKey) : Bool :=
  k.line ≠ c.line || keyLimit < c.index - k.index

/-- Forgets the keys that can no longer be one; a required one is missed. -/
def dropStale (l : Lexer) : Except Fault Lexer :=
  if l.pending.any fun k => isStale l.cursor k.2 && k.2.required then Token.malformed
  else .ok { l with pending := l.pending.filter fun k => !isStale l.cursor k.2 }

/-- Forgets the pending key at this depth; a required one is missed. -/
def dropPending (l : Lexer) : Except Fault Lexer :=
  match l.pending.lookup l.flow with
  | some k =>
    if k.required then Token.malformed
    else .ok { l with pending := l.pending.filter fun k => k.1 ≠ l.flow }
  | none => .ok l

/-- Remembers that the next token may begin a simple key. -/
def savePending (l : Lexer) : Except Fault Lexer :=
  if l.keyAllowed then do
    let l ← l.dropPending
    let c := l.cursor
    let required := l.flow = 0 && l.indent = (c.column : Int)
    return { l with pending := (l.flow, ⟨l.back.length, required, c.index, c.line, c.column⟩) ::
      l.pending }
  else .ok l

/-- Closes the blocks that begin right of a column. -/
def unwindFrom (column : Int) (back : List Token) (indent : Int) :
    List Int → List Token × Int × List Int
  | [] => (back, indent, [])
  | o :: outer =>
    if column < indent then unwindFrom column (.blockEnd :: back) o outer
    else (back, indent, o :: outer)

def unwind (l : Lexer) (column : Int) : Lexer :=
  if l.flow = 0 then
    let (back, indent, outer) := unwindFrom column l.back l.indent l.outer
    { l with back, indent, outer }
  else l

/-- Opens a block at a column, if it lies right of the innermost one; was one opened? -/
def openBlock (l : Lexer) (column : Nat) : Bool × Lexer :=
  if l.indent < (column : Int) then
    (true, { l with indent := column, outer := l.indent :: l.outer })
  else (false, l)

/-- The number of characters in front of the next token: blanks, comments, line ends. The flag says
whether a line end is among them. -/
def leading (inComment : Bool) (crossed : Bool) : List Char → Nat × Bool
  | [] => (0, crossed)
  | c :: s =>
    let (more, skip, comment, crossed') :=
      if isBreak c then (true, 1, false, true)
      else if inComment then (true, 1, true, crossed)
      else if c = ' ' then (true, 1, false, crossed)
      else if c = '#' then (true, 1, true, crossed)
      else (false, 0, false, crossed)
    if more then
      let (n, b) := leading comment crossed' s
      (n + skip, b)
    else (0, crossed)

/-- Moves to the next token. -/
def skipToToken (l : Lexer) : Lexer :=
  let c := l.cursor
  let c := if c.index = 0 && c.peek? 0 = some byteOrderMark then c.next else c
  let (n, crossed) := leading false false c.rest
  { l with cursor := c.advance n, keyAllowed := l.keyAllowed || (crossed && l.flow = 0) }

/-- Emits a token of `n` characters. -/
def take (l : Lexer) (n : Nat) (t : Token) : Lexer :=
  { l with cursor := l.cursor.advance n, back := t :: l.back }

/-- Emits a token that was read up to `rest`. -/
def takeTo (l : Lexer) (t : Token) (rest : List Char) : Lexer :=
  { l with cursor := l.cursor.moveTo rest, back := t :: l.back }

/-- A mark in front of a whole line, at column 0: all blocks end there. -/
def atMargin (l : Lexer) : Except Fault Lexer := do
  let l ← (l.unwind (-1)).dropPending
  return { l with keyAllowed := false }

/-- An opening bracket. -/
def openFlow (l : Lexer) (t : Token) : Except Fault Lexer := do
  let l ← l.savePending
  return ({ l with flow := l.flow + 1, keyAllowed := true }).take 1 t

/-- A closing bracket. -/
def closeFlow (l : Lexer) (t : Token) : Except Fault Lexer := do
  let l ← l.dropPending
  return ({ l with flow := l.flow - 1, keyAllowed := false }).take 1 t

/-- A mark at which a block may open: outside brackets a key must be allowed here. -/
def openHere (l : Lexer) (t : Token) : Except Fault Lexer :=
  if l.flow = 0 then
    if l.keyAllowed then
      match l.openBlock l.cursor.column with
      | (true, l) => .ok (l.emit t)
      | (false, l) => .ok l
    else Token.malformed
  else .ok l

/-- A `-` in front of an entry. -/
def blockEntry (l : Lexer) : Except Fault Lexer := do
  let l ← l.openHere .blockSequenceStart
  let l ← ({ l with keyAllowed := true }).dropPending
  return l.take 1 .blockEntry

/-- A `?` in front of a key. -/
def explicitKey (l : Lexer) : Except Fault Lexer := do
  let l ← l.openHere .blockMappingStart
  let l ← ({ l with keyAllowed := l.flow = 0 }).dropPending
  return l.take 1 .key

/-- A `:` in front of a value. If a simple key is pending, it has been one. -/
def valueMark (l : Lexer) : Except Fault Lexer :=
  match l.pending.lookup l.flow with
  | some k => do
    let l := { l with pending := l.pending.filter fun k => k.1 ≠ l.flow }
    let l := l.insert k.position .key
    let l :=
      if l.flow = 0 then
        match l.openBlock k.column with
        | (true, l) => l.insert k.position .blockMappingStart
        | (false, l) => l
      else l
    return ({ l with keyAllowed := false }).take 1 .value
  | none => do
    let l ← l.openHere .blockMappingStart
    let l ← ({ l with keyAllowed := l.flow = 0 }).dropPending
    return l.take 1 .value

/-- A token that may begin a simple key, read from behind its first character. -/
def inlineToken (l : Lexer) (read : List Char → Except Fault (Token × List Char)) :
    Except Fault Lexer := do
  let l ← l.savePending
  let (t, r) ← read (l.cursor.rest.drop 1)
  return ({ l with keyAllowed := false }).takeTo t r

/-- A block scalar. -/
def blockScalar (l : Lexer) (folded : Bool) : Except Fault Lexer := do
  let l ← ({ l with keyAllowed := true }).dropPending
  let (text, r) ← Block.read folded l.indent (l.cursor.rest.drop 1)
  return l.takeTo (.scalar (String.ofList text) false) r

/-- A plain scalar. -/
def plainScalar (l : Lexer) : Except Fault Lexer := do
  let l ← l.savePending
  let p := Plain.read (l.flow ≠ 0) (l.indent + 1) l.cursor
  return { l with cursor := p.after, keyAllowed := p.crossed,
                  back := .scalar (String.ofList p.text) true :: l.back }

def quotedScalar (double : Bool) (s : List Char) : Except Fault (Token × List Char) := do
  let (text, r) ← Token.readQuoted double s
  return (.scalar (String.ofList text) false, r)

def named (make : String → Token) (s : List Char) : Except Fault (Token × List Char) := do
  let (name, r) ← Token.readName s
  return (make name, r)

/-- The token that starts with `ch`, which stands at the cursor. -/
def token (l : Lexer) (ch : Char) : Except Fault Lexer :=
  let c := l.cursor
  let inFlow := l.flow ≠ 0
  if ch = '%' && c.column = 0 then do
    let l ← l.atMargin
    let (t, r) ← Token.readDirective (l.cursor.rest.drop 1)
    return l.takeTo t r
  else if c.column = 0 && c.atDocumentMark then do
    let l ← l.atMargin
    return l.take 3 (if ch = '-' then .documentStart else .documentEnd)
  else if ch = '[' then l.openFlow .flowSequenceStart
  else if ch = '{' then l.openFlow .flowMappingStart
  else if ch = ']' then l.closeFlow .flowSequenceEnd
  else if ch = '}' then l.closeFlow .flowMappingEnd
  else if ch = ',' then do
    let l ← ({ l with keyAllowed := true }).dropPending
    return l.take 1 .flowEntry
  else if ch = '-' && endsToken (c.peek? 1) then l.blockEntry
  else if ch = '?' && (inFlow || endsToken (c.peek? 1)) then l.explicitKey
  else if ch = ':' && (inFlow || endsToken (c.peek? 1)) then l.valueMark
  else if ch = '*' then l.inlineToken (named .alias)
  else if ch = '&' then l.inlineToken (named .anchor)
  else if ch = '!' then l.inlineToken Token.readTag
  else if (ch = '|' || ch = '>') && !inFlow then l.blockScalar (ch = '>')
  else if ch = '\'' || ch = '"' then l.inlineToken (quotedScalar (ch = '"'))
  else if Plain.startsAt inFlow c then l.plainScalar
  else Token.malformed

/-- The next token; `none` behind the last one. -/
def step (l : Lexer) : Except Fault (Lexer × Bool) := do
  let l ← l.skipToToken.dropStale
  let l := l.unwind l.cursor.column
  match l.cursor.rest with
  | [] => return (← (l.unwind (-1)).dropPending, true)
  | ch :: _ => return (← l.token ch, false)

/-- The tokens that are certain although the text could not be read further. -/
def certain (l : Lexer) : List Token :=
  let pending := l.pending.filter fun k => !isStale l.cursor k.2
  let keep := pending.foldl (fun n k => min n k.2.position) l.back.length
  l.back.reverse.take keep

/-- Runs to the end of the text. -/
def run (l : Lexer) : List Token :=
  match l.step with
  | .error f => l.certain ++ [.fault f]
  | .ok (l', true) => l'.back.reverse
  | .ok (l', false) =>
    if l'.cursor.rest.length < l.cursor.rest.length then l'.run
    else l.certain ++ [.fault .malformed]
  termination_by l.cursor.rest.length

end Lexer

/-- The tokens of a text. -/
def tokens (s : List Char) : List Token := (Lexer.ofText s).run

end Yaml

end ModulePins
