import ModulePins.Text.Markup

/-!
# The console

What commands show: lines with style tags, boxes and tables. A `Screen` keeps them in order, apart
from the plain output that other programs may read. Warnings and errors make the tags in their
message literal; all other lines are printed as they are.
-/

namespace ModulePins

/-- A thing shown on the console. -/
inductive ConsoleItem where
  | line (markup : String)
  | panel (markup : String)
  | table (title : String) (columns : List String) (rows : List (List String))
  deriving DecidableEq, Repr

namespace ConsoleItem

/-- A text inside a style tag. -/
def styled (style s : String) : String := "[" ++ style ++ "]" ++ s ++ "[/" ++ style ++ "]"

/-- A line, perhaps in a style. -/
def print (s style : String) : ConsoleItem := .line (if style = "" then s else styled style s)

/-- The box at the head of a command. -/
def header (title subtitle : String) : ConsoleItem :=
  .panel (styled "bold" title ++ if subtitle = "" then "" else "\n" ++ styled "dim" subtitle)

def success (s : String) : ConsoleItem := .line (styled "green" "✓" ++ " " ++ s)

def info (s : String) : ConsoleItem := .line (styled "dim" s)

def warning (s : String) : ConsoleItem := .line (styled "yellow" "⚠" ++ " " ++ Text.escapeMarkup s)

def error (s : String) : ConsoleItem := .line (styled "red" "✗" ++ " " ++ Text.escapeMarkup s)

/-- The text of a line without style tags. -/
def plainLine (markup : String) : String := String.ofList (Text.plainMarkup 0 markup.toList)

/-- The item as lines without styles. -/
def plain : ConsoleItem → List String
  | line s | panel s => [plainLine s]
  | table title columns rows =>
    plainLine title :: (columns :: rows).map fun cells => Text.join " | " (cells.map plainLine)

end ConsoleItem

/-- What has been shown, and the plain output. -/
structure Screen where
  items : List ConsoleItem
  output : String
  deriving DecidableEq, Repr, Inhabited

namespace Screen

/-- Nothing yet. -/
def empty : Screen := ⟨[], ""⟩

/-- Shows a thing. -/
def put (s : Screen) (i : ConsoleItem) : Screen := { s with items := s.items ++ [i] }

/-- Writes a line of plain output. -/
def write (s : Screen) (line : String) : Screen := { s with output := s.output ++ line ++ "\n" }

end Screen

end ModulePins
