import ModulePins.Json.Basic
import ModulePins.Keyed
import ModulePins.Number.Reading

/-!
# Reading JSON

A value with blanks around it and nothing else. Beyond the standard, `NaN`, `Infinity` and
`-Infinity` are read; a key that comes again replaces the value at its first place; the halves of a
surrogate pair are put together, and a half by itself makes the text malformed.

* `Json.readText` — a text from behind its opening quote;
* `Json.readNumber?` — a number at the start of a text;
* `Json.read` — a whole text.
-/

namespace ModulePins

namespace Json

/-- Why a text is no JSON value. -/
inductive ReadFault where
  | malformed
  /-- A whole number with too many digits. -/
  | tooManyDigits (count : Nat)
  deriving DecidableEq, Repr

/-- Is the character a blank between the parts of a value? -/
def isSpace (c : Char) : Bool := c = ' ' || c = '\t' || c = '\n' || c = '\r'

def skipSpace (s : List Char) : List Char := s.dropWhile isSpace

theorem length_skipSpace (s : List Char) : (skipSpace s).length ≤ s.length :=
  (List.dropWhile_sublist _).length_le

/-- The value of four hexadecimal digits. -/
def hex4? (a b c d : Char) : Option Nat := Text.readNat? 16 [a, b, c, d]

/-- The single characters that may follow a backslash, and what they stand for. -/
def escapes : List (Char × Char) :=
  [('"', '"'), ('\\', '\\'), ('/', '/'), ('b', '\x08'), ('f', '\x0c'), ('n', '\n'), ('r', '\r'),
   ('t', '\t')]

/-- A character outside the surrogates. -/
def charOfUnit? (n : Nat) : Option Char :=
  if 0xd800 ≤ n ∧ n < 0xe000 then none else some (Char.ofNat n)

/-- The character behind a backslash, and the rest. -/
def readEscape? : List Char → Option (Char × List Char)
  | 'u' :: a :: b :: c :: d :: s => do
    let n ← hex4? a b c d
    if 0xd800 ≤ n ∧ n < 0xdc00 then
      match s with
      | '\\' :: 'u' :: a :: b :: c :: d :: s => do
        let m ← hex4? a b c d
        if 0xdc00 ≤ m ∧ m < 0xe000 then
          return (Char.ofNat (0x10000 + (n - 0xd800) * 0x400 + (m - 0xdc00)), s)
        else none
      | _ => none
    else return (← charOfUnit? n, s)
  | e :: s => (escapes.lookup e).map fun c => (c, s)
  | [] => none

/-- A text from behind its opening quote, and the rest behind the closing one. Controls have to be
escaped. -/
def readText (s : List Char) : Except ReadFault (List Char × List Char) :=
  match s with
  | [] => .error .malformed
  | c :: s' =>
    if c = '"' then .ok ([], s')
    else if c = '\\' then
      match readEscape? s' with
      | none => .error .malformed
      | some (d, r) =>
        if r.length ≤ s'.length then do
          let (cs, r') ← readText r
          return (d :: cs, r')
        else .error .malformed
    else if c.toNat < 0x20 then .error .malformed
    else do
      let (cs, r) ← readText s'
      return (c :: cs, r)
  termination_by s.length

/-- The digits at the start of a text, and the rest. -/
def takeDigits (s : List Char) : List Char × List Char :=
  (s.takeWhile Char.isDigit, s.dropWhile Char.isDigit)

/-- Is there a minus sign at the start of a text, and the rest. -/
def takeMinus : List Char → Bool × List Char
  | '-' :: s => (true, s)
  | s => (false, s)

/-- The digits before the point, and the rest; a zero stands alone. -/
def takeWhole : List Char → List Char × List Char
  | '0' :: s => (['0'], s)
  | s => takeDigits s

/-- The fraction digits behind a point, if there are any. -/
def takeFraction (s : List Char) : List Char × List Char :=
  match s with
  | '.' :: r =>
    match takeDigits r with
    | ([], _) => ([], s)
    | p => p
  | _ => ([], s)

/-- The exponent, if there is one. -/
def takeExponent (s : List Char) : Option Int × List Char :=
  match s with
  | e :: r =>
    if e = 'e' || e = 'E' then
      let (negative, r) := Number.takeSign r
      match takeDigits r with
      | ([], _) => (none, s)
      | (ds, r) =>
        let n : Int := ((Text.readNat? 10 ds).getD 0 : Nat)
        (some (if negative then -n else n), r)
    else (none, s)
  | [] => (none, s)

/-- The number at the start of a text, and the rest. A whole number has no superfluous zero. -/
def readNumber? (s : List Char) : Option (Except ReadFault Json × List Char) :=
  let (negative, body) := takeMinus s
  let (whole, r) := takeWhole body
  if whole.isEmpty then none
  else
    let (fraction, r) := takeFraction r
    let (exponent?, r) := takeExponent r
    let digits := (Text.readNat? 10 (whole ++ fraction)).getD 0
    match fraction, exponent? with
    | [], none =>
      if Number.maxDigits < whole.length then
        some (.error (.tooManyDigits whole.length), r)
      else some (.ok (.int (if negative then -(digits : Int) else digits)), r)
    | _, _ =>
      some (.ok (.float (Double.ofDecimal negative digits
        (exponent?.getD 0 - fraction.length))), r)

/-- The words that are values. -/
def words : List (String × Json) :=
  [("null", .null), ("true", .bool true), ("false", .bool false), ("NaN", .float Double.nan),
   ("Infinity", .float (Double.infinity false)), ("-Infinity", .float (Double.infinity true))]

/-- A word or number at the start of a text, and the rest. -/
def readAtom (s : List Char) : Except ReadFault (Json × List Char) :=
  match words.findSome? fun w => (Text.afterStart? w.1.toList s).map fun r => (w.2, r) with
  | some p => .ok p
  | none =>
    match readNumber? s with
    | some (.ok v, r) => .ok (v, r)
    | some (.error f, _) => .error f
    | none => .error .malformed

/-- What a reader returns: a result and a rest shorter than `bound`. -/
structure Parsed (α : Type) (bound : Nat) where
  result : α
  rest : List Char
  shorter : rest.length < bound

/-- The result, if its rest is shorter than `bound`, as it is after every character read. -/
def Parsed.ofRest {α : Type} (bound : Nat) (p : α × List Char) :
    Except ReadFault (Parsed α bound) :=
  if h : p.2.length < bound then .ok ⟨p.1, p.2, h⟩ else .error .malformed

mutual

/-- A value at the start of a text. -/
def readValue (s : List Char) : Except ReadFault (Parsed Json s.length) :=
  match s with
  | '"' :: r => do
    let (cs, r) ← readText r
    Parsed.ofRest _ (.str (String.ofList cs), r)
  | '[' :: r =>
    match h : skipSpace r with
    | ']' :: r' => .ok ⟨.array [], r', by
        have := length_skipSpace r; simp [h] at this; simp; omega⟩
    | r' => do
      have : r'.length ≤ r.length := h ▸ length_skipSpace r
      let q ← readItems r'
      return ⟨.array q.result, q.rest, by have := q.shorter; simp; omega⟩
  | '{' :: r =>
    match h : skipSpace r with
    | '}' :: r' => .ok ⟨.object [], r', by
        have := length_skipSpace r; simp [h] at this; simp; omega⟩
    | r' => do
      have : r'.length ≤ r.length := h ▸ length_skipSpace r
      let q ← readMembers r'
      return ⟨.object (Keyed.collapse (·.1) q.result), q.rest, by
        have := q.shorter; simp; omega⟩
  | s => do
    let p ← readAtom s
    Parsed.ofRest _ p
  termination_by 2 * s.length

/-- The items of an array from the first one on, and the closing bracket. -/
def readItems (s : List Char) : Except ReadFault (Parsed (List Json) s.length) := do
  let p ← readValue s
  have := p.shorter
  match h : skipSpace p.rest with
  | ',' :: r =>
    have hr := length_skipSpace p.rest
    have hs := length_skipSpace r
    have : (skipSpace r).length < s.length := by simp [h] at hr; omega
    let q ← readItems (skipSpace r)
    return ⟨p.result :: q.result, q.rest, by have := q.shorter; omega⟩
  | ']' :: r =>
    have hr := length_skipSpace p.rest
    return ⟨[p.result], r, by simp [h] at hr; omega⟩
  | _ => throw .malformed
  termination_by 2 * s.length + 1

/-- The members of an object from the first one on, and the closing brace. -/
def readMembers (s : List Char) :
    Except ReadFault (Parsed (List (String × Json)) s.length) :=
  match s with
  | '"' :: r => do
    let k ← readText r
    let k ← Parsed.ofRest (r.length + 1) k
    have := k.shorter
    match h : skipSpace k.rest with
    | ':' :: r' =>
      have hr := length_skipSpace k.rest
      have hs := length_skipSpace r'
      have : (skipSpace r').length < r.length := by simp [h] at hr; omega
      let p ← readValue (skipSpace r')
      have := p.shorter
      match h' : skipSpace p.rest with
      | ',' :: r'' =>
        have hr := length_skipSpace p.rest
        have hs := length_skipSpace r''
        have : (skipSpace r'').length < r.length := by simp [h'] at hr; omega
        let q ← readMembers (skipSpace r'')
        return ⟨(String.ofList k.result, p.result) :: q.result, q.rest, by
          have := q.shorter; simp; omega⟩
      | '}' :: r'' =>
        have hr := length_skipSpace p.rest
        return ⟨[(String.ofList k.result, p.result)], r'', by simp [h'] at hr; simp; omega⟩
      | _ => throw .malformed
    | _ => throw .malformed
  | _ => .error .malformed
  termination_by 2 * s.length + 1

end

/-- The value that a whole text writes. -/
def read (s : List Char) : Except ReadFault Json := do
  let p ← readValue (skipSpace s)
  if (skipSpace p.rest).isEmpty then return p.result else throw .malformed

end Json

end ModulePins
