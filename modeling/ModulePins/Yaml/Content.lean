import ModulePins.Number.Reading
import ModulePins.Text.Base64
import ModulePins.Text.Digit
import ModulePins.Value
import ModulePins.Yaml.Node.Implicit

/-!
# Content of scalars

The value that a scalar has under its tag. Underscores in numbers do not count. Whole numbers may
be binary (`0b`), octal (`0`), decimal, hexadecimal (`0x`) or sexagesimal (parts joined by `:`);
floating-point numbers decimal or sexagesimal. Dates without a time of day are dates, all others
date-times. A text of the wrong form is a bad value; bytes that are not written in base 64 make the
document malformed.
-/

namespace ModulePins

namespace Yaml

namespace Content

/-- The parts of a text between colons. -/
def parts (s : List Char) : List (List Char) := Text.splitChars ':' [] [] s

/-- The digits that a text begins with, behind its sign. -/
def leadingDigits (s : List Char) : List Char :=
  (Number.takeSign (Text.trim s)).2.takeWhile Char.isDigit

/-- A whole number without underscores and sign; digits of all scripts count. -/
def readInteger (base : Nat) (s : List Char) : Except Fault Int :=
  let plain := s.map Text.plainDigit
  if base = 10 && Number.maxDigits < (leadingDigits plain).length then
    .error (.value (.tooManyDigits (leadingDigits plain).length))
  else
    match Number.readInt? base plain with
    | some i => .ok i
    | none => .error (.value (.notInteger base (String.ofList s)))

/-- The number that digits write in base sixty. -/
def sixties (ds : List Int) : Int := ds.foldl (fun n d => n * 60 + d) 0

/-- The magnitude of a whole number behind its sign. -/
def magnitude (s : List Char) : Except Fault Int :=
  match s with
  | [] => .error (.value .emptyNumber)
  | ['0'] => .ok 0
  | '0' :: 'b' :: ds => readInteger 2 ds
  | '0' :: 'x' :: ds => readInteger 16 ds
  | '0' :: _ => readInteger 8 s
  | _ =>
    if s.contains ':' then do return sixties (← (parts s).mapM (readInteger 10))
    else readInteger 10 s

/-- The sign of a number and what follows it; a number has at least one character. -/
def signed (s : List Char) : Except Fault (Bool × List Char) :=
  if s.isEmpty then .error (.value .emptyNumber) else .ok (Number.takeSign s)

def integer (text : String) : Except Fault Value := do
  let (negative, s) ← signed (text.toList.filter (· ≠ '_'))
  let n ← magnitude s
  return .int (if negative then -n else n)

/-- A decimal floating-point number; digits of all scripts count. -/
def readDouble (s : List Char) : Except Fault Double :=
  match Number.readDouble? (s.map Text.plainDigit) with
  | some x => .ok x
  | none => .error (.value (.notNumber (String.ofList s)))

/-- The sum of the parts, the last one counted once, the one before it sixty times, and so on. -/
def sumSixties (xs : List Double) : Double :=
  (xs.reverse.foldl (fun (acc : Double × Nat) x =>
    (acc.1.add (x.mul (Double.ofInt acc.2)), acc.2 * 60)) (Double.zero false, 1)).1

def double (text : String) : Except Fault Value := do
  let (negative, s) ← signed (Number.lowerAscii (text.toList.filter (· ≠ '_')))
  if s = ".nan".toList then return .float Double.namedNan
  let x ←
    if s = ".inf".toList then pure (Double.infinity false)
    else if s.contains ':' then do pure (sumSixties (← (parts s).mapM readDouble))
    else readDouble s
  return .float (if negative then x.neg else x)

/-- The words for truth values, in lower case. -/
def truthWords : List (String × Bool) :=
  [("yes", true), ("no", false), ("true", true), ("false", false), ("on", true), ("off", false)]

def truth (text : String) : Except Fault Value :=
  let word := String.ofList (Number.lowerAscii text.toList)
  match truthWords.lookup word with
  | some b => .ok (.bool b)
  | none => .error (.value (.notTruth word))

def bytes (text : String) : Except Fault Value :=
  if text.toList.all fun c => c.toNat < 128 then
    match Text.Base64.decode text.toList with
    | some b => .ok (.bytes b)
    | none => .error .malformed
  else .error .malformed

/-- A run of `least` to `most` digits and what follows, the longest first. -/
def number (least most : Nat) (s : List Char) : Option (Nat × List Char) :=
  let ds := (s.takeWhile Char.isDigit).take most
  if ds.length < least then none else (Text.readNat? 10 ds).map fun n => (n, s.drop ds.length)

/-- The character `c`. -/
def mark (c : Char) : List Char → Option (List Char)
  | d :: s => if d = c then some s else none
  | [] => none

/-- The first six digits of a fraction of a second, as microseconds. -/
def microseconds (ds : List Char) : Nat :=
  let six := ds.take 6
  (Text.readNat? 10 (six ++ List.replicate (6 - six.length) '0')).getD 0

/-- An offset: `Z` or hours and minutes. -/
def offset (s : List Char) : Option (Option Int × List Char) :=
  match s with
  | [] => some (none, [])
  | ['\n'] => some (none, s)
  | _ =>
    match s.dropWhile fun c => c = ' ' || c = '\t' with
    | 'Z' :: r => some (some 0, r)
    | c :: r =>
      if c = '-' || c = '+' then do
        let (h, r) ← number 1 2 r
        let (m, r) ←
          match mark ':' r with
          | some r => number 2 2 r
          | none => some (0, r)
        let o : Int := (60 * h + m : Nat)
        return (some (if c = '-' then -o else o), r)
      else none
    | [] => none

/-- The time of day behind a date. -/
def timeOfDay (date : Date) (s : List Char) : Option (DateTime × List Char) := do
  let (h, r) ← number 1 2 s
  let (m, r) ← number 2 2 (← mark ':' r)
  let (sec, r) ← number 2 2 (← mark ':' r)
  let (us, r) :=
    match mark '.' r with
    | some r => (microseconds (r.takeWhile Char.isDigit), r.dropWhile Char.isDigit)
    | none => (0, r)
  let (o, r) ← offset r
  return (⟨date, h, m, sec, us, o⟩, r)

/-- What separates the date from the time of day. -/
def betweenDateAndTime (s : List Char) : Option (List Char) :=
  match s with
  | 'T' :: r => some r
  | 't' :: r => some r
  | c :: _ => if c = ' ' || c = '\t' then some (s.dropWhile fun c => c = ' ' || c = '\t') else none
  | [] => none

/-- The fields of a date, and of a time of day if there is one. -/
def fields (s : List Char) : Option (Date × Option DateTime) := do
  let (y, r) ← number 4 4 s
  let (m, r) ← number 1 2 (← mark '-' r)
  let (d, r) ← number 1 2 (← mark '-' r)
  let date : Date := ⟨y, m, d⟩
  if r = [] || r = ['\n'] then return (date, none)
  else
    let (t, r) ← timeOfDay date (← betweenDateAndTime r)
    if r = [] || r = ['\n'] then return (date, some t) else none

def timestamp (text : String) : Except Fault Value :=
  match fields text.toList with
  | none => .error (.value .notTimestamp)
  | some (date, none) =>
    match date.check with
    | some f => .error (.value (.calendar f))
    | none => .ok (.date date)
  | some (_, some t) =>
    match t.check with
    | some f => .error (.value (.calendar f))
    | none => .ok (.dateTime t)

/-- The value of a scalar under a tag; tags of collections and unknown tags give none. -/
def ofScalar (tag : Tag) (text : String) : Except Fault Value :=
  match tag with
  | .null => .ok .null
  | .bool => truth text
  | .int => integer text
  | .float => double text
  | .str => .ok (.str text)
  | .binary => bytes text
  | .timestamp => timestamp text
  | _ => .error .malformed

/-- Is the tag one of scalars? -/
def isScalarTag : Tag → Bool
  | .null | .bool | .int | .float | .str | .binary | .timestamp => true
  | _ => false

end Content

end Yaml

end ModulePins
