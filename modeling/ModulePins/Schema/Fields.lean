import ModulePins.Schema.Checked
import ModulePins.Value

/-!
# Checks of values

What texts, truth values, lists and records may be written as. Bytes count as the text they write
in UTF-8. A record is a mapping whose keys are the names of its fields; a field may have two names,
of which the first is looked for first. Keys that are not used up by a field are issues.
-/

namespace ModulePins

namespace Schema

/-- A text, or the bytes of one. -/
def text : Value → Checked String
  | .str s => .pass s
  | .bytes b =>
    match String.fromUTF8? (ByteArray.mk b.toArray) with
    | some s => .pass s
    | none =>
      .refuse "Input should be a valid string, unable to parse raw data as a unicode string"
  | _ => .refuse "Input should be a valid string"

/-- A text with at least one character. -/
def nonEmptyText (v : Value) : Checked String :=
  (text v).andThen fun s =>
    if s = "" then .refuse "String should have at least 1 character" else .pass s

/-- The words for true and for false, in lower case. -/
def truthWords : List (String × Bool) :=
  [("true", true), ("t", true), ("yes", true), ("y", true), ("on", true), ("1", true),
   ("false", false), ("f", false), ("no", false), ("n", false), ("off", false), ("0", false)]

def unclearTruth : Checked Bool :=
  .refuse "Input should be a valid boolean, unable to interpret input"

def noTruth : Checked Bool := .refuse "Input should be a valid boolean"

/-- Whole numbers from here on do not fit into a machine word. -/
def wordLimit : Int := 0x8000000000000000

/-- A truth value, or a word or number for one. -/
def truth : Value → Checked Bool
  | .bool b => .pass b
  | .int i =>
    if i = 0 then .pass false
    else if i = 1 then .pass true
    else if -wordLimit ≤ i ∧ i < wordLimit then unclearTruth
    else noTruth
  | .float x =>
    match x.toInt? with
    | some 0 => .pass false
    | some 1 => .pass true
    | _ => noTruth
  | .str s => ofWord s
  | .bytes b =>
    match String.fromUTF8? (ByteArray.mk b.toArray) with
    | some s => ofWord s
    | none => unclearTruth
  | _ => noTruth
where
  /-- A word for a truth value, in any case. -/
  ofWord (s : String) : Checked Bool :=
    match truthWords.lookup (String.ofList (s.toList.map Char.toLower)) with
    | some b => .pass b
    | none => unclearTruth

/-- A value that may be null. -/
def orNull {α : Type} (check : Value → Checked α) : Value → Checked (Option α)
  | .null => .pass none
  | v => (check v).map some

/-- The elements of a list, a set or a pair. -/
def listOf {α : Type} (check : Value → Checked α) : Value → Checked (List α)
  | .list items => Checked.elements check 0 items
  | .set items => Checked.elements check 0 items
  | .pair a b => Checked.elements check 0 [a, b]
  | _ => .refuse "Input should be a valid list"

/-- The members of a mapping. -/
abbrev Members := List (Value × Value)

/-- A record of the given name. -/
def record {α : Type} (name : String) (check : Members → Checked α) : Value → Checked α
  | .mapping es => check es
  | _ => .refuse ("Input should be a valid dictionary or instance of " ++ name)

/-- The first of the names that is a key, with its value. -/
def member? (names : List String) (es : Members) : Option (String × Value) :=
  names.findSome? fun n =>
    (es.find? fun e => match e.1 with | .str s => s = n | _ => false).map fun e => (n, e.2)

/-- A field that may be left out. -/
def field {α : Type} (names : List String) (check : Value → Checked α) (default : α)
    (es : Members) : Checked α :=
  match member? names es with
  | some (n, v) => (check v).within n
  | none => .pass default

/-- A field that must be there. -/
def requiredField {α : Type} (names : List String) (check : Value → Checked α) (es : Members) :
    Checked α :=
  match member? names es with
  | some (n, v) => (check v).within n
  | none => (Checked.refuse "Field required").within (names.headD "")

/-- A key as the place of an issue. -/
def keyText : Value → String
  | .null => "None"
  | .bool b => if b then "1" else "0"
  | .int i => toString i
  | .float x => x.text
  | .str s => s
  | .bytes b => Text.quotedBytes b
  | .date d => "datetime.date(" ++ Text.join ", " ([d.year, d.month, d.day].map toString) ++ ")"
  | .dateTime t =>
    let fraction := if t.microsecond = 0 then [] else [t.microsecond]
    let seconds := if t.second = 0 && t.microsecond = 0 then [] else [t.second]
    let fields := [t.date.year, t.date.month, t.date.day, t.hour, t.minute] ++ seconds ++ fraction
    let zone :=
      match t.offset with
      | none => []
      | some 0 => ["tzinfo=datetime.timezone.utc"]
      | some o => ["tzinfo=datetime.timezone(" ++ CalendarFault.spanText o ++ ")"]
    "datetime.datetime(" ++ Text.join ", " (fields.map toString ++ zone) ++ ")"
  | v => v.kindName

/-- No keys but those that the fields use; each field is given by its names. -/
def noOthers (fields : List (List String)) (es : Members) : Checked Unit :=
  let used := fields.filterMap fun names => (member? names es).map (·.1)
  let issues := es.filterMap fun e =>
    match e.1 with
    | .str s => if used.contains s then none else some ⟨[s], "Extra inputs are not permitted"⟩
    | k => some ⟨[keyText k], "Keys should be strings"⟩
  if issues.isEmpty then .pass () else .fail issues

end Schema

end ModulePins
