import ModulePins.Calendar
import ModulePins.Text.Quoted

/-!
# Values that cannot be made

A text can have the form of a number, a date or a character code and still name no value. Such
faults are not errors of the form, so they keep their own causes and messages.
-/

namespace ModulePins

/-- Why a value cannot be made. -/
inductive BadValue where
  /-- A date or time with a field out of range. -/
  | calendar (fault : CalendarFault)
  /-- A text that should write a whole number in a base. -/
  | notInteger (base : Nat) (text : String)
  /-- A text that should write a decimal number. -/
  | notNumber (text : String)
  /-- A decimal number with too many digits. -/
  | tooManyDigits (count : Nat)
  /-- A character code beyond the last character. -/
  | noCharacter
  /-- A character code beyond machine numbers. -/
  | hugeCharacter
  /-- A number without any digit. -/
  | emptyNumber
  /-- A text that should be a truth value. -/
  | notTruth (text : String)
  /-- A text that should be a date. -/
  | notTimestamp
  /-- A thing of the named kind that lacks the named member. -/
  | noMember (kind name : String)
  /-- An empty text where a separator is expected. -/
  | emptySeparator
  /-- A path that is not below another one. -/
  | notBelow (path above : String)
  deriving DecidableEq, Repr

namespace BadValue

/-- The message of a fault. -/
def message : BadValue → String
  | calendar f => f.message
  | notInteger base text =>
    "invalid literal for int() with base " ++ toString base ++ ": " ++ Text.quoted text
  | notNumber text => "could not convert string to float: " ++ Text.quoted text
  | tooManyDigits n =>
    "Exceeds the limit (4300 digits) for integer string conversion: value has " ++ toString n ++
      " digits; use sys.set_int_max_str_digits() to increase the limit"
  | noCharacter => "chr() arg not in range(0x110000)"
  | hugeCharacter => "Python int too large to convert to C int"
  | emptyNumber => "string index out of range"
  | notTruth text => Text.quoted text
  | notTimestamp => "'NoneType' object has no attribute 'groupdict'"
  | noMember kind name => "'" ++ kind ++ "' object has no attribute " ++ Text.quoted name
  | emptySeparator => "empty separator"
  | notBelow path above =>
    Text.quoted path ++ " is not in the subpath of " ++ Text.quoted above ++
      " OR one path is relative and the other is absolute."

end BadValue

end ModulePins
