import ModulePins.Text.Basic

/-!
# Console markup

Console lines carry style tags in square brackets. `Text.escapeMarkup` makes a text safe to print
among them: a bracketed group that would be read as a tag gets a backslash in front, and the
backslashes that already stand before it are doubled, so that they do not escape it. A text that
ends in exactly one backslash gets a second one, because a tag may follow.
-/

namespace ModulePins

namespace Text

/-- Can this character open a tag name? -/
def isTagStart (c : Char) : Bool :=
  ('a' ≤ c && c ≤ 'z') || c = '#' || c = '/' || c = '@'

/-- The tag at the start of the text, from `[` to the first `]` after it: its name begins with a
letter, `#`, `/` or `@`, and no further `[` stands inside. -/
def tagAtStart? : List Char → Option (List Char)
  | '[' :: c :: s =>
    if isTagStart c then
      let body := s.takeWhile fun d => d ≠ ']' && d ≠ '['
      if s[body.length]? = some ']' then some ('[' :: c :: body ++ [']']) else none
    else none
  | _ => none

/-- Escapes the tags of a text; `slashes` counts the backslashes read just before the rest, and
`skip` the characters of a tag that are still to be copied. -/
def escapeTags (slashes skip : Nat) : List Char → List Char
  | [] => List.replicate slashes '\\'
  | c :: s =>
    match skip with
    | k + 1 => c :: escapeTags 0 k s
    | 0 =>
      if c = '\\' then escapeTags (slashes + 1) 0 s
      else
        match tagAtStart? (c :: s) with
        | some tag => List.replicate (2 * slashes + 1) '\\' ++ c :: escapeTags 0 (tag.length - 1) s
        | none => List.replicate slashes '\\' ++ c :: escapeTags 0 0 s

/-- The text as it is read on a console without styles: tags are left out, and a bracket behind a
backslash is a bracket; `skip` counts the characters that are still to be left out. -/
def plainMarkup (skip : Nat) : List Char → List Char
  | [] => []
  | c :: s =>
    match skip with
    | k + 1 => plainMarkup k s
    | 0 =>
      if c = '\\' && s.head? = some '[' then '[' :: plainMarkup 1 s
      else
        match tagAtStart? (c :: s) with
        | some tag => plainMarkup (tag.length - 1) s
        | none => c :: plainMarkup 0 s

/-- The text with its tags and its last backslash made literal. -/
def escapeMarkup (s : String) : String :=
  let t := escapeTags 0 0 s.toList
  match t.reverse with
  | ['\\'] => "\\\\"
  | '\\' :: d :: _ => if d = '\\' then String.ofList t else String.ofList (t ++ ['\\'])
  | _ => String.ofList t

end Text

end ModulePins
