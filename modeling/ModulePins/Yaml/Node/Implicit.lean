import ModulePins.Yaml.Node
import ModulePins.Text.Basic

/-!
# Tags of plain scalars

A scalar without quotes and tag is a null, a truth value, a number, a date, a merge mark or a text,
by its form alone. The forms are given as languages of characters: `Form` is a way to consume a
start of a text, with all the ways to go on, and `Form.accepts` asks for one that ends where the
text does. A last line end does not count.
-/

namespace ModulePins

namespace Yaml

/-- All ways to go on behind a start of the text that has the form. -/
abbrev Form := List Char → List (List Char)

namespace Form

/-- Nothing. -/
def nothing : Form := fun s => [s]

/-- One character of a class. -/
def one (p : Char → Bool) : Form
  | c :: s => if p c then [s] else []
  | [] => []

/-- The text `t`. -/
def lit (t : String) : Form := fun s => (Text.afterStart? t.toList s).toList

/-- Either form. -/
def either (f g : Form) : Form := fun s => f s ++ g s

/-- One form behind the other. -/
def chain (f g : Form) : Form := fun s => (f s).flatMap g

/-- The form or nothing. -/
def opt (f : Form) : Form := either f nothing

/-- Characters of a class, at least `least`. -/
def run (p : Char → Bool) (least : Nat) : Form
  | [] => if least = 0 then [[]] else []
  | c :: s =>
    let more := if p c then run p (least - 1) s else []
    if least = 0 then (c :: s) :: more else more

/-- The form once or more often; `n` bounds how often. -/
def repeated (f : Form) : Nat → Form
  | 0 => fun _ => []
  | n + 1 => chain f (opt (repeated f n))

/-- Does a whole text have the form? -/
def accepts (f : Form) (s : List Char) : Bool :=
  (f s).any fun r => r = [] || r = ['\n']

def anyOf (ts : List String) : Form := fun s => ts.flatMap fun t => lit t s

def digit : Form := one Char.isDigit

/-- Digits and underscores behind a digit. -/
def digits_ : Form := run (fun c => c.isDigit || c = '_') 0

def sign : Form := opt (one fun c => c = '-' || c = '+')

/-- A part of a number in base sixty: a colon and one or two digits up to 59. -/
def sixtieth : Form :=
  chain (lit ":") (either (chain (one fun c => '0' ≤ c && c ≤ '5') digit) digit)

def exponent : Form :=
  opt (chain (one fun c => c = 'e' || c = 'E') (chain (one fun c => c = '-' || c = '+')
    (run Char.isDigit 1)))

end Form

namespace Implicit

open Form

def truth : Form :=
  anyOf ["yes", "Yes", "YES", "no", "No", "NO", "true", "True", "TRUE", "false", "False", "FALSE",
    "on", "On", "ON", "off", "Off", "OFF"]

/-- Floating-point numbers: with a point and a signed exponent, in base sixty, or named. -/
def float : Form := fun s =>
  let n := s.length
  either (chain sign (chain digit (chain digits_ (chain (lit ".") (chain digits_ exponent)))))
    (either (chain (lit ".") (chain digit (chain digits_ exponent)))
      (either
        (chain sign (chain digit (chain digits_
          (chain (repeated sixtieth n) (chain (lit ".") digits_)))))
        (either (chain sign (anyOf [".inf", ".Inf", ".INF"]))
          (anyOf [".nan", ".NaN", ".NAN"])))) s

/-- Whole numbers: binary, octal, decimal, hexadecimal, and in base sixty. -/
def int : Form := fun s =>
  let n := s.length
  let positive := one fun c => '1' ≤ c && c ≤ '9'
  chain sign
    (either (chain (lit "0b") (run (fun c => c = '0' || c = '1' || c = '_') 1))
      (either (chain (lit "0") (run (fun c => ('0' ≤ c && c ≤ '7') || c = '_') 1))
        (either (lit "0")
          (either (chain positive digits_)
            (either (chain (lit "0x") (run (fun c => (Text.digitValue? 16 c).isSome || c = '_') 1))
              (chain positive (chain digits_ (repeated sixtieth n)))))))) s

/-- `n` digits. -/
def fixed : Nat → Form
  | 0 => nothing
  | n + 1 => chain digit (fixed n)

/-- One digit or two. -/
def oneOrTwo : Form := chain digit (opt digit)

def blanks : Form := run (fun c => c = ' ' || c = '\t') 0

/-- What follows the date of a date-time. -/
def timeOfDay : Form :=
  chain (either (one fun c => c = 'T' || c = 't') (run (fun c => c = ' ' || c = '\t') 1))
    (chain oneOrTwo (chain (lit ":") (chain (fixed 2) (chain (lit ":") (chain (fixed 2)
      (chain (opt (chain (lit ".") (run Char.isDigit 0)))
        (opt (chain blanks (either (lit "Z") (chain (one fun c => c = '-' || c = '+')
          (chain oneOrTwo (opt (chain (lit ":") (fixed 2))))))))))))))

/-- Dates of full width, and date-times. -/
def timestamp : Form :=
  either (chain (fixed 4) (chain (lit "-") (chain (fixed 2) (chain (lit "-") (fixed 2)))))
    (chain (fixed 4)
      (chain (lit "-") (chain oneOrTwo (chain (lit "-") (chain oneOrTwo timeOfDay)))))

/-- The forms in the order in which they are tried. -/
def forms : List (Form × Tag) :=
  [(truth, .bool), (float, .float), (int, .int), (lit "<<", .merge),
   (anyOf ["~", "null", "Null", "NULL", ""], .null), (timestamp, .timestamp), (lit "=", .value),
   (anyOf ["!", "&", "*"], .foreign (Tag.space ++ "yaml"))]

/-- The tag that a plain scalar has by its form. -/
def tagOf (text : String) : Tag :=
  match forms.find? fun f => f.1.accepts text.toList with
  | some f => f.2
  | none => .str

end Implicit

end Yaml

end ModulePins
