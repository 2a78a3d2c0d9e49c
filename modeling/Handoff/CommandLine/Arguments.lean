import Handoff.Configuration.Overrides

/-!
# Command-line arguments

The first argument may name a command; without one the files are checked. Options and paths may be
mixed, and behind `--` everything is a path. `Command.parse` reads the arguments and reports the
first that is wrong.
-/

namespace Handoff

open Text

inductive Format where
  | pretty
  | json
  | github
deriving DecidableEq, Repr

def Format.named : String → Option Format
  | "pretty" => some .pretty
  | "json" => some .json
  | "github" => some .github
  | _ => none

/-- The arguments of a check. Options that were not given are none. -/
structure CheckOptions where
  paths : List String := []
  format : Option Format := none
  only : List String := []
  skip : List String := []
  derive : Option String := none
  carriers : List String := []
  config : Option String := none
  tests : Bool := false
  noPrecise : Bool := false
  denyWarnings : Bool := false
deriving DecidableEq, Repr

def CheckOptions.overrides (o : CheckOptions) : Overrides :=
  ⟨o.only, o.skip, o.derive, o.carriers, o.noPrecise⟩

inductive Command where
  | check (options : CheckOptions)
  | listCheckers
  | explain (checker : String)
  | version
  | help
deriving DecidableEq, Repr

inductive UsageError where
  | unexpected (argument : String)
  | missingValue (option : String)
  | invalidValue (option value : String)
  | needlessValue (option value : String)
  | repeated (option : String)
  | missingArgument (name : String)
deriving DecidableEq, Repr

def UsageError.message : UsageError → String
  | .unexpected argument => "unexpected argument '" ++ argument ++ "' found"
  | .missingValue option => "a value is required for '" ++ option ++ "' but none was supplied"
  | .invalidValue option value => "invalid value '" ++ value ++ "' for '" ++ option ++ "'"
  | .needlessValue option value =>
    "unexpected value '" ++ value ++ "' for '" ++ option ++ "' found; no more were expected"
  | .repeated option => "the argument '" ++ option ++ "' cannot be used multiple times"
  | .missingArgument name => "the argument '" ++ name ++ "' was not provided"

namespace Command

/-- An argument before its meaning is known. -/
inductive Word where
  /-- `--name` or `--name=value`. -/
  | long (name : String) (value : Option String)
  /-- `-x…`, by its first letter. -/
  | short (letter : Char)
  /-- Anything else, a lone dash included. -/
  | plain (text : String)
deriving DecidableEq, Repr

def Word.ofArgument (argument : String) : Word :=
  match argument.toList with
  | '-' :: '-' :: cs =>
    match splitFirst '=' cs with
    | some (name, value) => .long (String.ofList name) (some (String.ofList value))
    | none => .long (String.ofList cs) none
  | '-' :: c :: _ => .short c
  | _ => .plain argument

/-- Whether an argument can be the value of the option before it. -/
def Word.isValue : Word → Bool
  | .plain _ => true
  | _ => false

def listOf (value : String) : List String :=
  (pieces ',' value.toList).map String.ofList

/-- Gives an option that may be given once its value. -/
def once {α : Type} (option : String) (old : Option α) (value : α) :
    Except UsageError (Option α) :=
  if old.isSome then .error (.repeated option) else .ok (some value)

/-- Sets a flag that may be given once. -/
def raise (option : String) (flag : Bool) : Except UsageError Bool :=
  if flag then .error (.repeated option) else .ok true

def withFlag (o : CheckOptions) : String → Option (Except UsageError CheckOptions)
  | "tests" => some do return { o with tests := ← raise "--tests" o.tests }
  | "no-precise" => some do return { o with noPrecise := ← raise "--no-precise" o.noPrecise }
  | "deny-warnings" => some do
    return { o with denyWarnings := ← raise "--deny-warnings" o.denyWarnings }
  | _ => none

/-- The options with a value, as what they do with it. -/
def withValue (o : CheckOptions) : String → Option (String → Except UsageError CheckOptions)
  | "format" => some fun value => do
    match Format.named value with
    | some format => return { o with format := ← once "--format" o.format format }
    | none => throw (.invalidValue "--format" value)
  | "only" => some fun value => return { o with only := o.only ++ listOf value }
  | "skip" => some fun value => return { o with skip := o.skip ++ listOf value }
  | "derive" => some fun value => return { o with derive := ← once "--derive" o.derive value }
  | "carrier" => some fun value => return { o with carriers := o.carriers ++ [value] }
  | "config" => some fun value => do
    if value.isEmpty then throw (.invalidValue "--config" value)
    return { o with config := ← once "--config" o.config value }
  | _ => none

def withPath (o : CheckOptions) (path : String) : Except UsageError CheckOptions :=
  if path.isEmpty then .error (.invalidValue "[PATH]..." path)
  else .ok { o with paths := o.paths ++ [path] }

/-- Reads the arguments of a check behind `o`. The version can be asked for only where no command
was named. -/
def parseCheck (named : Bool) (o : CheckOptions) : List String → Except UsageError Command
  | [] => .ok (.check o)
  | "--" :: paths => return .check (← paths.foldlM withPath o)
  | argument :: rest =>
    match Word.ofArgument argument with
    | .plain path => do parseCheck named (← withPath o path) rest
    | .short letter =>
      if letter = 'h' then .ok .help
      else if letter = 'V' && !named then .ok .version
      else .error (.unexpected argument)
    | .long name value =>
      match withValue o name, withFlag o name, value with
      | some assign, _, some value => do parseCheck named (← assign value) rest
      | some assign, _, none =>
        match rest with
        | [] => .error (.missingValue argument)
        | value :: rest =>
          if (Word.ofArgument value).isValue then do parseCheck named (← assign value) rest
          else .error (.missingValue argument)
      | none, some _, some value => .error (.needlessValue argument value)
      | none, some flagged, none => do parseCheck named (← flagged) rest
      | none, none, none =>
        if name = "help" then .ok .help
        else if name = "version" && !named then .ok .version
        else .error (.unexpected argument)
      | none, none, some _ => .error (.unexpected argument)

/-- Reads arguments of which at most `limit` may be plain words. -/
def parseWords (limit : Nat) (found : List String) : List String →
    Except UsageError (Option (List String))
  | [] => .ok (some found)
  | "--" :: words =>
    match (found ++ words)[limit]? with
    | some extra => .error (.unexpected extra)
    | none => .ok (some (found ++ words))
  | argument :: rest =>
    match Word.ofArgument argument with
    | .plain word =>
      if found.length < limit then parseWords limit (found ++ [word]) rest
      else .error (.unexpected word)
    | .short letter => if letter = 'h' then .ok none else .error (.unexpected argument)
    | .long name value =>
      if name = "help" && value.isNone then .ok none else .error (.unexpected argument)

/-- The command that the arguments ask for. -/
def parse : List String → Except UsageError Command
  | "check" :: rest => parseCheck true {} rest
  | "list-checkers" :: rest => do
    match ← parseWords 0 [] rest with
    | none => return .help
    | some _ => return .listCheckers
  | "explain" :: rest => do
    match ← parseWords 1 [] rest with
    | none => return .help
    | some (checker :: _) => return .explain checker
    | some [] => throw (.missingArgument "<CHECKER>")
  | "help" :: _ => .ok .help
  | arguments => parseCheck false {} arguments

end Command

end Handoff
