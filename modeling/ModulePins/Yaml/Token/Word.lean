import ModulePins.Yaml.Cursor
import ModulePins.Yaml.Token

/-!
# Directives, anchors and tags

The tokens that are single words. Each reader starts behind the mark that announces the token and
returns the token and what remains; a word must end where its rule says, or the text is malformed.
-/

namespace ModulePins

namespace Yaml

namespace Token

/-- The outcome of a text that is not well-formed. -/
def malformed {α : Type} : Except Fault α := .error .malformed

/-- The longest start of characters of a class, which must not be empty. -/
def readRun (p : Char → Bool) (s : List Char) : Except Fault (List Char × List Char) :=
  let run := s.takeWhile p
  if run.isEmpty then malformed else .ok (run, s.dropWhile p)

/-- Skips blanks. -/
def skipBlanks (s : List Char) : List Char := s.dropWhile (· = ' ')

/-- Skips blanks and a comment up to the end of the line, and the line end itself. -/
def skipLineEnd (s : List Char) : Except Fault (List Char) :=
  let s := skipBlanks s
  let s := if s.head? = some '#' then s.dropWhile fun c => !isBreak c else s
  match s with
  | [] => .ok []
  | c :: r => if isBreak c then .ok r else malformed

/-- The bytes written as `%` and two hexadecimal digits, as far as they go. -/
def readEscapedBytes : List Char → Except Fault (List UInt8 × List Char)
  | '%' :: a :: b :: s =>
    match Text.digitValue? 16 a, Text.digitValue? 16 b with
    | some x, some y => do
      let (bytes, r) ← readEscapedBytes s
      return (UInt8.ofNat (16 * x + y) :: bytes, r)
    | _, _ => malformed
  | '%' :: _ => malformed
  | s => .ok ([], s)

/-- A tag name: characters of its class, with escaped bytes decoded. -/
def readUri (s : List Char) : Except Fault (List Char × List Char) :=
  match s with
  | [] => .ok ([], [])
  | c :: s' =>
    if c = '%' then
      match readEscapedBytes (c :: s') with
      | .error e => .error e
      | .ok (bytes, r) =>
        match String.fromUTF8? (ByteArray.mk bytes.toArray) with
        | none => malformed
        | some t =>
          -- an escape takes up three characters, so the rest is shorter
          if r.length < s'.length + 1 then do
            let (rest, r') ← readUri r
            return (t.toList ++ rest, r')
          else malformed
    else if isUriChar c then do
      let (rest, r) ← readUri s'
      return (c :: rest, r)
    else .ok ([], c :: s')
  termination_by s.length

/-- A tag name that is not empty. -/
def readUri1 (s : List Char) : Except Fault (String × List Char) := do
  let (u, r) ← readUri s
  if u.isEmpty then malformed else return (String.ofList u, r)

/-- A handle: `!`, `!!` or a word between two `!`. -/
def readHandle (s : List Char) : Except Fault (String × List Char) :=
  match s with
  | '!' :: r =>
    if r.head? = some ' ' then .ok ("!", r)
    else
      let word := r.takeWhile isWordChar
      match r.dropWhile isWordChar with
      | '!' :: r' => .ok (String.ofList ('!' :: word ++ ['!']), r')
      | _ => malformed
  | _ => malformed

/-- A number of a version directive. -/
def readVersionNumber (s : List Char) : Except Fault (Nat × List Char) := do
  let (ds, r) ← readRun Char.isDigit s
  if 4300 < ds.length then throw (.value (.tooManyDigits ds.length))
  return ((Text.readNat? 10 ds).getD 0, r)

/-- A directive, from behind its `%`, with the rest of its line. -/
def readDirective (s : List Char) : Except Fault (Token × List Char) := do
  let (name, r) ← readRun isWordChar s
  if !endsWord r.head? then malformed
  let (d, r) ←
    if name = "YAML".toList then do
      let (major, r) ← readVersionNumber (skipBlanks r)
      match r with
      | '.' :: r =>
        let (minor, r) ← readVersionNumber r
        if endsWord r.head? then pure (Directive.version major minor, r) else malformed
      | _ => malformed
    else if name = "TAG".toList then do
      let (handle, r) ← readHandle (skipBlanks r)
      if r.head? ≠ some ' ' then malformed
      let (uri, r) ← readUri1 (skipBlanks r)
      if endsWord r.head? then pure (Directive.tagHandle handle uri, r) else malformed
    else pure (Directive.reserved (String.ofList name), r.dropWhile fun c => !isBreak c)
  return (.directive d, ← skipLineEnd r)

/-- The name of an anchor or alias, from behind its mark. -/
def readName (s : List Char) : Except Fault (String × List Char) := do
  let (name, r) ← readRun isWordChar s
  let ends :=
    match r.head? with
    | none => true
    | some c => endsToken (some c) || "?:,]\x7d%@`".toList.contains c
  if ends then return (String.ofList name, r) else malformed

/-- A tag, from behind its `!`. -/
def readTag (s : List Char) : Except Fault (Token × List Char) := do
  let (t, r) ←
    if s.head? = some '<' then do
      let (uri, r) ← readUri1 (s.drop 1)
      match r with
      | '>' :: r => pure (Token.tag none uri, r)
      | _ => malformed
    else if endsToken s.head? then pure (Token.tag none "!", s)
    else if (s.takeWhile fun c => !endsWord (some c)).contains '!' then do
      let (handle, r) ← readHandle ('!' :: s)
      let (suffix, r) ← readUri1 r
      pure (Token.tag (some handle) suffix, r)
    else do
      let (suffix, r) ← readUri1 s
      pure (Token.tag (some "!") suffix, r)
  if endsWord r.head? then return (t, r) else malformed

end Token

end Yaml

end ModulePins
