import ModulePins.BadValue
import ModulePins.FileStore

/-!
# Faults

Everything that can go wrong, by cause. `Fault.message` words each cause; `Fault.kindName` and
`Fault.families` give the kind under which a fault of the program's own is reported and the wider
kinds it belongs to.
-/

namespace ModulePins

/-- The stage at which reading settings or a module file fails. -/
inductive ReadingStage where
  | general
  | missing
  | parsing
  | validation
  | moduleFile
  deriving DecidableEq, Repr, Inhabited

/-- A failure. -/
inductive Fault where
  /-- A failure without a kind of its own. -/
  | general (message : String)
  /-- A pin that cannot be declared. -/
  | declaration (message : String)
  /-- A mnemonic that is not in the catalog. -/
  | unknownStandardPin (mnemonic : String) (available : List String)
  /-- Modules that inherit from each other in a circle, by label; the first one is repeated. -/
  | inheritanceCycle (cycle : List String)
  /-- An address that is not registered, and the module that refers to it. -/
  | unknownModule (address : String) (referencedBy : Option String)
  /-- Settings or a module file that cannot be read. -/
  | reading (stage : ReadingStage) (message : String) (path : Option String)
  /-- A file operation that failed. -/
  | file (error : FileError)
  /-- Bytes that are no text. -/
  | notText
  /-- A path that leads round in a circle of links. -/
  | linkLoop (path : String)
  /-- A value that cannot be made. -/
  | value (cause : BadValue)
  deriving DecidableEq, Repr

namespace ReadingStage

def kindName : ReadingStage → String
  | general => "ConfigError"
  | missing => "ConfigNotFoundError"
  | parsing => "ConfigParseError"
  | validation => "ConfigValidationError"
  | moduleFile => "ModuleFileError"

end ReadingStage

namespace Fault

/-- The kind of all failures of the program's own. -/
def rootKind : String := "WaterError"

/-- The kind of a failure of the program's own. -/
def kindName? : Fault → Option String
  | general _ => some rootKind
  | declaration _ => some "PinDeclarationError"
  | unknownStandardPin _ _ => some "UnknownStandardPinError"
  | inheritanceCycle _ => some "InheritanceCycleError"
  | unknownModule _ _ => some "UnknownModuleError"
  | reading stage _ _ => some stage.kindName
  | file _ | notText | linkLoop _ | value _ => none

/-- The wider kinds of a failure of the program's own, nearest first. -/
def families : Fault → List String
  | unknownStandardPin _ _ => ["PinDeclarationError", rootKind]
  | declaration _ | inheritanceCycle _ | unknownModule _ _ => [rootKind]
  | reading .general _ _ => [rootKind]
  | reading _ _ _ => [ReadingStage.general.kindName, rootKind]
  | _ => []

/-- Is the failure one of the program's own? -/
def isOwn (f : Fault) : Bool := f.kindName?.isSome

/-- The message of a failure. -/
def message : Fault → String
  | general m => m
  | declaration m => m
  | unknownStandardPin mnemonic available =>
    "Unknown standard Water PIN: " ++ Text.quoted mnemonic ++ ". Available: " ++
      Text.join ", " available
  | inheritanceCycle cycle => "Inheritance cycle detected: " ++ Text.join " -> " cycle
  | unknownModule address referencedBy =>
    "Unknown module: " ++ Text.quoted address ++
      match referencedBy with
      | some name => " (referenced by " ++ Text.quoted name ++ ")"
      | none => ""
  | reading _ m path =>
    match path with
    | some p => if p = "" then m else m ++ " (file: " ++ p ++ ")"
    | none => m
  | file e => e.cause.message (Text.quoted e.path)
  | notText => "text is not valid UTF-8"
  | linkLoop path => "Symlink loop from " ++ Text.quoted path
  | value b => b.message

/-- The failure as the log shows it: its kind and its message. -/
def shown (f : Fault) : String :=
  (f.kindName?.getD "") ++ "(" ++ Text.quoted f.message ++ ")"

end Fault

end ModulePins
