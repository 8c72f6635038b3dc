import ModulePins.Text.Basic

/-!
# Dates and times of day

Dates of the years 1 to 9999 and date-times with microseconds and an optional offset from universal
time. `Date.check` and `DateTime.check` name the first field out of range; values that pass have
one text each, the ISO form. Two date-times with offsets are the same moment when their
`DateTime.instant?` agree.
-/

namespace ModulePins

/-- A field of a date or time that is out of range. -/
inductive CalendarFault where
  | year (value : Nat)
  | month
  | day
  | hour
  | minute
  | second
  /-- An offset of a whole day or more, in minutes. -/
  | offset (minutes : Int)
  deriving DecidableEq, Repr

/-- A calendar date. -/
structure Date where
  year : Nat
  month : Nat
  day : Nat
  deriving DecidableEq, Repr, Inhabited

/-- A date with a time of day; the offset from universal time counts minutes. -/
structure DateTime where
  date : Date
  hour : Nat
  minute : Nat
  second : Nat
  microsecond : Nat
  offset : Option Int
  deriving DecidableEq, Repr, Inhabited

namespace Date

/-- Every fourth year is a leap year, but of the full centuries only every fourth one. -/
def isLeap (year : Nat) : Bool :=
  year % 4 = 0 && (year % 100 ≠ 0 || year % 400 = 0)

/-- The number of days of a month. -/
def daysIn (year month : Nat) : Nat :=
  if month = 2 then (if isLeap year then 29 else 28)
  else if month = 4 || month = 6 || month = 9 || month = 11 then 30
  else 31

/-- The first field out of range, in the order year, month, day. -/
def check (d : Date) : Option CalendarFault :=
  if d.year = 0 || 9999 < d.year then some (.year d.year)
  else if d.month = 0 || 12 < d.month then some .month
  else if d.day = 0 || daysIn d.year d.month < d.day then some .day
  else none

/-- The number of days since the first day of year 1. -/
def ordinal (d : Date) : Nat :=
  let y := d.year - 1
  let before := (List.range (d.month - 1)).foldl (fun n m => n + daysIn d.year (m + 1)) 0
  365 * y + y / 4 - y / 100 + y / 400 + before + (d.day - 1)

/-- The ISO text of a date. -/
def iso (d : Date) : String :=
  Text.natDigits 10 4 d.year ++ "-" ++ Text.natDigits 10 2 d.month ++ "-" ++
    Text.natDigits 10 2 d.day

end Date

namespace DateTime

/-- The first field out of range: the offset, then those of the date, then those of the time. -/
def check (t : DateTime) : Option CalendarFault :=
  let badOffset := t.offset.bind fun o =>
    if o ≤ -1440 ∨ 1440 ≤ o then some (CalendarFault.offset o) else none
  badOffset <|> t.date.check <|>
    (if 23 < t.hour then some .hour
      else if 59 < t.minute then some .minute
      else if 59 < t.second then some .second
      else none)

/-- The moment in microseconds of universal time, if the offset is known. -/
def instant? (t : DateTime) : Option Int :=
  t.offset.map fun o =>
    let minutes : Int := (t.date.ordinal * 1440 + t.hour * 60 + t.minute : Nat) - o
    minutes * 60000000 + (t.second * 1000000 + t.microsecond : Nat)

/-- The text of an offset: sign, hours and minutes. -/
def offsetText (o : Int) : String :=
  (if o < 0 then "-" else "+") ++ Text.natDigits 10 2 (o.natAbs / 60) ++ ":" ++
    Text.natDigits 10 2 (o.natAbs % 60)

/-- The ISO text of a date-time; a fraction is written when there is one. -/
def iso (t : DateTime) : String :=
  t.date.iso ++ "T" ++ Text.natDigits 10 2 t.hour ++ ":" ++ Text.natDigits 10 2 t.minute ++ ":" ++
    Text.natDigits 10 2 t.second ++
    (if t.microsecond = 0 then "" else "." ++ Text.natDigits 10 6 t.microsecond) ++
    (t.offset.map offsetText).getD ""

end DateTime

namespace CalendarFault

/-- The length of time that an offset stands for, in days and seconds as messages show it. -/
def spanText (minutes : Int) : String :=
  let days := Int.fdiv minutes 1440
  let seconds := (minutes - days * 1440) * 60
  let parts := (if days = 0 then [] else ["days=" ++ toString days]) ++
    (if seconds = 0 then [] else ["seconds=" ++ toString seconds])
  "datetime.timedelta(" ++ (if parts.isEmpty then "0" else Text.join ", " parts) ++ ")"

/-- The message of a fault. -/
def message : CalendarFault → String
  | year y => "year " ++ toString y ++ " is out of range"
  | month => "month must be in 1..12"
  | day => "day is out of range for month"
  | hour => "hour must be in 0..23"
  | minute => "minute must be in 0..59"
  | second => "second must be in 0..59"
  | offset o =>
    "offset must be a timedelta strictly between -timedelta(hours=24) and timedelta(hours=24), not "
      ++ spanText o ++ "."

end CalendarFault

end ModulePins
