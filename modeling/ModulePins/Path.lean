import ModulePins.Text.Basic

/-!
# Paths

A path is an anchor and a list of components. Empty components and `.` vanish when a text is read;
`..` stays, since what it means depends on links. A path that starts with exactly two slashes keeps
both, one that starts with more keeps one, and a path without anchor and components is written `.`.

* `Path.ofString`, `Path.toString` — reading and writing;
* `Path.append` — an absolute path replaces what stands before it;
* `Path.parent`, `Path.name`, `Path.withSuffix` — the last component;
* `Path.under?` — the components below another path.
-/

namespace ModulePins

/-- How a path begins. -/
inductive Anchor where
  | relative
  | root
  | doubleRoot
  deriving DecidableEq, Repr, Inhabited

/-- An anchor followed by components. -/
structure Path where
  anchor : Anchor
  parts : List String
  deriving DecidableEq, Repr, Inhabited

namespace Path

/-- The components of a text: what stands between slashes, without empty ones and `.`. -/
def components (s : String) : List String :=
  (Text.splitOn "/" s).filter fun p => p ≠ "" && p ≠ "."

/-- The anchor of a text. -/
def anchorOf (s : String) : Anchor :=
  match (s.toList.takeWhile (· = '/')).length with
  | 0 => .relative
  | 2 => .doubleRoot
  | _ => .root

def ofString (s : String) : Path :=
  ⟨anchorOf s, components s⟩

protected def toString (p : Path) : String :=
  let body := Text.join "/" p.parts
  match p.anchor with
  | .root => "/" ++ body
  | .doubleRoot => "//" ++ body
  | .relative => if p.parts.isEmpty then "." else body

instance : ToString Path := ⟨Path.toString⟩

def isAbsolute (p : Path) : Bool := p.anchor ≠ .relative

/-- The path `q` seen from `p`: an absolute `q` replaces `p`. -/
def append (p q : Path) : Path :=
  if q.isAbsolute then q else ⟨p.anchor, p.parts ++ q.parts⟩

/-- Appends the texts one after the other. -/
def join (p : Path) (texts : List String) : Path :=
  texts.foldl (fun p s => p.append (ofString s)) p

instance : HDiv Path String Path := ⟨fun p s => p.append (ofString s)⟩

/-- The path without its last component; an anchor alone is its own parent. -/
def parent (p : Path) : Path := ⟨p.anchor, p.parts.dropLast⟩

/-- The last component, or the empty text. -/
def name (p : Path) : String := p.parts.getLast?.getD ""

/-- The name before its suffix: the last dot and what follows, unless the dot is the first or the
last character. -/
def stem (name : String) : String :=
  match Text.splitLast? "." name with
  | some (before, after) => if before = "" || after = "" then name else before
  | none => name

/-- The path with `suffix` in place of the suffix of its last component. -/
def withSuffix (p : Path) (suffix : String) : Path :=
  ⟨p.anchor, p.parts.dropLast ++ [stem p.name ++ suffix]⟩

/-- The components of `p` below `q`, if `p` begins with `q`. -/
def under? (p q : Path) : Option Path :=
  if p.anchor = q.anchor ∧ q.parts.isPrefixOf p.parts then
    some ⟨.relative, p.parts.drop q.parts.length⟩
  else none

end Path

end ModulePins
