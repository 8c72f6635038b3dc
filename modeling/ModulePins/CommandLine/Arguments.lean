/-!
# Arguments

How a list of arguments is taken apart into options and positional arguments. An option has a long
name behind two dashes and perhaps a letter behind one; letters can be put together, and a value may
follow in the same argument or in the next one. Two dashes by themselves end the options.

* `readOption` — the options in one argument;
* `readArguments` — a whole list; without `mixed` the first positional argument ends the options.
-/

namespace ModulePins

/-- An option. -/
structure OptionSpec where
  name : String
  letter : Option Char
  takesValue : Bool
  deriving DecidableEq, Repr

/-- The options that were given, in order, and the positional arguments. -/
structure Given where
  options : List (String × String)
  positionals : List String
  deriving DecidableEq, Repr

namespace Given

/-- Was the option given? -/
def hasOption (g : Given) (name : String) : Bool := g.options.any fun o => o.1 = name

/-- The value of an option; the last one counts. -/
def value? (g : Given) (name : String) : Option String :=
  (g.options.reverse.find? fun o => o.1 = name).map (·.2)

/-- The arguments with further options in front. -/
def withOptions (os : List (String × String)) (g : Given) : Given :=
  { g with options := os ++ g.options }

end Given

/-- The options in one argument: names with values, and perhaps a last one whose value is the next
argument. -/
structure OptionGroup where
  options : List (String × String)
  open? : Option String
  deriving DecidableEq, Repr

/-- The options of letters that were put together. -/
def readLetters (specs : List OptionSpec) : List Char → Option OptionGroup
  | [] => some ⟨[], none⟩
  | c :: cs =>
    match specs.find? fun s => s.letter = some c with
    | none => none
    | some s =>
      if s.takesValue then
        if cs.isEmpty then some ⟨[], some s.name⟩ else some ⟨[(s.name, String.ofList cs)], none⟩
      else
        (readLetters specs cs).map fun g => { g with options := (s.name, "") :: g.options }

/-- A long option with what stands behind its equals sign. -/
def readLong (specs : List OptionSpec) (name : String) (value? : Option String) :
    Option OptionGroup :=
  match specs.find? fun s => s.name = name, value? with
  | none, _ => none
  | some s, some v => if s.takesValue then some ⟨[(name, v)], none⟩ else none
  | some s, none => if s.takesValue then some ⟨[], some name⟩ else some ⟨[(name, "")], none⟩

/-- The options in an argument that begins with a dash. -/
def readOption (specs : List OptionSpec) (argument : String) : Option OptionGroup :=
  match argument.toList with
  | '-' :: '-' :: rest =>
    let name := String.ofList (rest.takeWhile (· ≠ '='))
    match rest.dropWhile (· ≠ '=') with
    | _ :: value => readLong specs name (some (String.ofList value))
    | [] => readLong specs name none
  | _ :: letters => readLetters specs letters
  | [] => none

/-- Does the argument hold options? A dash by itself does not. -/
def holdsOptions (argument : String) : Bool :=
  argument.startsWith "-" && argument ≠ "-"

/-- Takes a list of arguments apart; `none` if there is an unknown option or a value that is missing
or not expected. -/
def readArguments (specs : List OptionSpec) (mixed : Bool) : List String → Option Given
  | [] => some ⟨[], []⟩
  | a :: as =>
    if a = "--" then some ⟨[], as⟩
    else if holdsOptions a then
      match readOption specs a with
      | none => none
      | some ⟨os, none⟩ => (readArguments specs mixed as).map (Given.withOptions os)
      | some ⟨os, some name⟩ =>
        match as with
        | [] => none
        | v :: vs => (readArguments specs mixed vs).map (Given.withOptions (os ++ [(name, v)]))
    else if mixed then
      (readArguments specs mixed as).map fun g => { g with positionals := a :: g.positionals }
    else some ⟨[], a :: as⟩

end ModulePins
