import ModulePins.CommandLine.Arguments
import ModulePins.Path

/-!
# Requests

What a user asks for. Options of the program stand before the name of the command, those of the
command behind it. A request for help is granted if the options before it can be read, whatever else
is missing.
-/

namespace ModulePins

/-- A command with its arguments. -/
inductive Command where
  | discover (root : Path)
  | modules (root : Path)
  | catalog (mnemonic : Option String)
  | show (address : String) (root : Path)
  | generate (root : Path) (force : Bool)
  | version
  deriving DecidableEq, Repr

/-- What a user asks for. -/
inductive Request where
  | help
  | run (verbose : Bool) (command : Command)
  /-- Arguments that ask for nothing the program knows. -/
  | unclear
  deriving DecidableEq, Repr

namespace Command

/-- The workspace directory that a command works on. -/
def root? : Command → Option Path
  | discover root | modules root | .show _ root | generate root _ => some root
  | catalog _ | version => none

end Command

namespace Request

/-- How the program is called. -/
def usage : String :=
  "usage: water [--verbose] COMMAND\n" ++
    "  discover [ROOT]               list the addresses of the modules\n" ++
    "  modules [ROOT]                print the modules as data\n" ++
    "  catalog [MNEMONIC]            show the standard pins\n" ++
    "  show ADDRESS [--root ROOT]    print the document of a module\n" ++
    "  generate [ROOT] [--force]     write the documents of all modules\n" ++
    "  version                       print the version"

/-- The option that asks for help. -/
def helpOption : OptionSpec := ⟨"help", none, false⟩

/-- The options of the program. -/
def programOptions : List OptionSpec := [⟨"verbose", some 'v', false⟩, helpOption]

/-- The option that names the workspace directory. -/
def rootOption : OptionSpec := ⟨"root", some 'r', true⟩

/-- The option that asks for every document to be written. -/
def forceOption : OptionSpec := ⟨"force", some 'f', false⟩

/-- The workspace directory: the current one, unless another is named. -/
def rootOf (s : Option String) : Path := Path.ofString (s.getD ".")

/-- The command that arguments ask for, if their number is right. -/
abbrev CommandReader := Given → Option Command

/-- A command whose only argument may be the workspace directory. -/
def onRoot (command : Path → Command) : CommandReader := fun g =>
  match g.positionals with
  | [] => some (command (rootOf none))
  | [root] => some (command (rootOf (some root)))
  | _ => none

/-- The options of a command and how its arguments are read. -/
def command? : String → Option (List OptionSpec × CommandReader)
  | "discover" => some ([], onRoot .discover)
  | "modules" => some ([], onRoot .modules)
  | "catalog" => some ([], fun g =>
      match g.positionals with
      | [] => some (.catalog none)
      | [mnemonic] => some (.catalog (some mnemonic))
      | _ => none)
  | "show" => some ([rootOption], fun g =>
      match g.positionals with
      | [address] => some (.show address (rootOf (g.value? "root")))
      | _ => none)
  | "generate" => some ([forceOption], fun g =>
      onRoot (fun root => .generate root (g.hasOption "force")) g)
  | "version" => some ([], fun g => if g.positionals.isEmpty then some .version else none)
  | _ => none

/-- The request of a command's own arguments. -/
def ofCommand (verbose : Bool) (name : String) (arguments : List String) : Request :=
  match command? name with
  | none => unclear
  | some (options, read) =>
    match readArguments (options ++ [helpOption]) true arguments with
    | none => unclear
    | some g =>
      if g.hasOption "help" then help
      else
        match read g with
        | some c => run verbose c
        | none => unclear

/-- The request that arguments make. -/
def ofArguments (arguments : List String) : Request :=
  match readArguments programOptions false arguments with
  | none => unclear
  | some g =>
    if g.hasOption "help" then help
    else
      match g.positionals with
      | [] => unclear
      | name :: rest => ofCommand (g.hasOption "verbose") name rest

end Request

end ModulePins
