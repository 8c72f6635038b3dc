import ModulePins.Text.Basic

/-!
# Log records

Everything the program reports on the way is a record: a level, the channel that reports, and a
message. Messages begin with the tag of their subsystem. A `Journal` is where records end up: the
channels below the program's own name reach the one handler, which has the stream and format of the
first configuration and the level of the last one.
-/

namespace ModulePins

/-- How much a record matters. -/
inductive Level where
  | debug
  | info
  | warning
  | error
  | critical
  deriving DecidableEq, Repr, Inhabited

namespace Level

def rank : Level → Nat
  | debug => 10
  | info => 20
  | warning => 30
  | error => 40
  | critical => 50

def name : Level → String
  | debug => "DEBUG"
  | info => "INFO"
  | warning => "WARNING"
  | error => "ERROR"
  | critical => "CRITICAL"

/-- All levels, the least first. -/
def all : List Level := [debug, info, warning, error, critical]

/-- Does a record of this level pass a threshold? -/
def passes (threshold l : Level) : Bool := threshold.rank ≤ l.rank

end Level

/-- The part of the program that reports. -/
inductive Channel where
  | reading
  | settings
  | properties
  | declarations
  | inheritance
  | cache
  | emission
  | discovery
  | moduleFile
  | host
  | commandLine
  deriving DecidableEq, Repr

namespace Channel

/-- The program's own name, above all channels. -/
def rootName : String := "water_workspace"

/-- The name of a channel below the program's own. -/
def name : Channel → String
  | reading => "core.config"
  | settings => "config.loader"
  | properties => "pins.specs"
  | declarations => "pins.containers"
  | inheritance => "pins.inheritance"
  | cache => "pins.cache"
  | emission => "pins.emission"
  | discovery => "workspace.discovery"
  | moduleFile => "workspace.module_file"
  | host => "workspace.host"
  | commandLine => "cli.utils"

end Channel

/-- A report. -/
structure Record where
  level : Level
  channel : Channel
  message : String
  deriving DecidableEq, Repr

/-- The subsystems that messages come from. -/
inductive Subsystem where
  | discovery
  | pins
  | inherit
  | emit
  | config
  | cli
  deriving DecidableEq, Repr

namespace Subsystem

/-- The word of its tag. -/
def word : Subsystem → String
  | discovery => "DISCOVERY"
  | pins => "PINS"
  | inherit => "INHERIT"
  | emit => "EMIT"
  | config => "CONFIG"
  | cli => "CLI"

/-- The tag that messages begin with. -/
def tag (t : Subsystem) : String := "[" ++ t.word ++ "]"

/-- All subsystems. -/
def all : List Subsystem := [discovery, pins, inherit, emit, config, cli]

/-- A message with the tag in front. -/
def say (t : Subsystem) (message : String) : String := t.tag ++ " " ++ message

end Subsystem

namespace Record

/-- The name of the channel with the program's name in front. -/
def source (r : Record) : String := Channel.rootName ++ "." ++ r.channel.name

end Record

/-- A piece of a line format. -/
inductive FormatPiece where
  | literal (text : String)
  | level
  | source
  | message
  deriving DecidableEq, Repr

/-- The layout of a log line. -/
abbrev LineFormat := List FormatPiece

namespace LineFormat

/-- Level in brackets, name, dash, message. -/
def standard : LineFormat :=
  [.literal "[", .level, .literal "] ", .source, .literal " - ", .message]

/-- The line for a level, a full source name and a message. -/
def render (f : LineFormat) (level : Level) (source message : String) : String :=
  String.join <| f.map fun
    | .literal t => t
    | .level => level.name
    | .source => source
    | .message => message

/-- The fields that a format text may name, and the doubled sign for the sign itself. -/
def fields : List (String × FormatPiece) :=
  [("%(levelname)s", .level), ("%(name)s", .source), ("%(message)s", .message),
   ("%%", .literal "%")]

/-- Reads a format text: the named fields are replaced, everything else stands for itself. -/
def read (s : List Char) : LineFormat :=
  match s with
  | [] => []
  | c :: rest =>
    let field? := fields.findSome? fun f =>
      (Text.afterStart? f.1.toList (c :: rest)).map fun r => (f.2, r)
    match field? with
    | some (piece, r) =>
      if r.length < rest.length + 1 then piece :: read r else []
    | none => .literal c.toString :: read rest
  termination_by s.length

end LineFormat

/-- The one handler of the journal: where it writes and how. -/
structure Handler where
  stream : Nat
  format : LineFormat
  deriving DecidableEq, Repr

/-- The log set-up and what has been written to each stream. -/
structure Journal where
  handler : Option Handler
  level : Level
  lines : List (Nat × String)
  deriving DecidableEq, Repr

namespace Journal

/-- No handler yet. -/
def empty : Journal := ⟨none, .info, []⟩

/-- Sets the level; the first call also sets the handler, and later ones leave it alone. -/
def configure (j : Journal) (level : Level) (h : Handler) : Journal :=
  { j with handler := j.handler <|> some h, level }

/-- Is the source the program itself or one of its channels? -/
def owns (source : String) : Bool :=
  source = Channel.rootName || (source.startsWith (Channel.rootName ++ "."))

/-- Writes a message that passes the level. -/
def write (j : Journal) (level : Level) (source message : String) : Journal :=
  match j.handler with
  | some h =>
    if owns source && j.level.passes level then
      { j with lines := j.lines ++ [(h.stream, h.format.render level source message)] }
    else j
  | none => j

/-- What a stream holds: its lines, each ended. -/
def contents (j : Journal) (stream : Nat) : String :=
  String.join <| j.lines.filterMap fun l => if l.1 = stream then some (l.2 ++ "\n") else none

end Journal

end ModulePins
