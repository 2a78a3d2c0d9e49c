import Handoff.CommandLine.Discovery
import Handoff.CommandLine.Report
import Handoff.Inspection
import Handoff.Syntax.Dump

/-!
# Running commands

A command on a disk gives what is to be printed and the exit code. Findings are no failure unless
they are denied.
-/

namespace Handoff

/-- What a run leaves behind. -/
structure Reply where
  exitCode : Nat
  output : String
  errors : String
deriving DecidableEq, Repr

namespace Reply

def success (output : String) : Reply := ⟨0, output, ""⟩

def failure (exitCode : Nat) (message : String) : Reply := ⟨exitCode, "", message ++ "\n"⟩

end Reply

namespace Command

variable {m : Type → Type} [Monad m]

def versionText : String := "ctxflow 0.1.0\n"

def helpText : String :=
  String.join (List.map (· ++ "\n") [
    "Check that goroutines and task spawners carry the caller's context.Context",
    "",
    "Usage: ctxflow [OPTIONS] [PATH]...",
    "       ctxflow <COMMAND>",
    "",
    "Commands:",
    "  check          Check files or directories",
    "  list-checkers  List available checkers",
    "  explain        Explain a checker",
    "",
    "Options:",
    "      --format <FORMAT>  pretty, json or github",
    "      --only <ONLY>      Only run these checkers (comma-separated)",
    "      --skip <SKIP>      Skip these checkers (comma-separated)",
    "      --derive <TEXT>    Derivation requirement",
    "      --carrier <SPEC>   Extra type treated as a context carrier",
    "      --config <FILE>    Path to a configuration file",
    "      --tests            Include _test.go files",
    "      --no-precise       Use only the syntactic checks",
    "      --deny-warnings    Exit with code 1 if there are findings"])

def checkerList : String :=
  String.join (Checker.all.map fun c => c.name ++ "\t" ++ c.description ++ "\n")

def explanation (c : Checker) : String :=
  "name: " ++ c.name ++ "\nkind: " ++ c.kind.name ++ "\ndescription: " ++ c.description ++ "\n"

/-- The report on a source as findings of a file. -/
def checkFile (settings : Settings) (file source : String) : List FileFinding :=
  (Handoff.check settings source).map fun f => ⟨file, f⟩

/-- The findings in a file, none if a tool wrote it. -/
def checkPath (d : Disk m) (settings : Settings) (path : String) :
    ExceptT Failure m (List FileFinding) := do
  match ← d.read path with
  | .error e => throw (.read e)
  | .ok source =>
    if Discovery.isGenerated source then return [] else return checkFile settings path source

def runCheck (d : Disk m) (o : CheckOptions) : ExceptT Failure m Reply := do
  let c ← Discovery.configuration d o.config o.paths
  let settings ←
    match c.settings o.overrides with
    | .ok s => pure s
    | .error e => throw (.settings e)
  let findings ←
    if o.paths.isEmpty then do pure (checkFile settings "stdin" (← d.input))
    else do
      let files ← Discovery.files d (o.tests || c.tests) o.paths
      Discovery.gather (checkPath d settings) files
  let output := (o.format.getD .pretty).report o.denyWarnings findings
  return ⟨if o.denyWarnings && !findings.isEmpty then 1 else 0, output, ""⟩

def execute (d : Disk m) : Command → ExceptT Failure m Reply
  | .check options => runCheck d options
  | .listCheckers => return .success checkerList
  | .explain name =>
    match Checker.named name with
    | some c => return .success (explanation c)
    | none => throw (.unknownChecker name)
  | .version => return .success versionText
  | .help => return .success helpText

/-- Runs a command; a failure is told and gives the exit code two. -/
def run (d : Disk m) (command : Command) : m Reply := do
  match ← (execute d command).run with
  | .ok reply => return reply
  | .error e => return .failure 2 e.message

/-- Runs the program on its arguments. -/
def runArguments (d : Disk m) (arguments : List String) : m Reply := do
  match parse arguments with
  | .ok command => run d command
  | .error e => return .failure 2 ("error: " ++ e.message)

/-- Shows the syntax tree of the one file that the arguments name. -/
def runDump (d : Disk m) (arguments : List String) : m Reply := do
  match arguments with
  | [path] =>
    match ← d.read path with
    | .ok source =>
      return .success (String.join ((Syntax.dumpFile path source).map fun l => l ++ "\n"))
    | .error e => return .failure 1 ("Failed to read " ++ path ++ ": " ++ e.message)
  | _ => return .failure 1 "Usage: dump_ast <file.go>"

end Command

end Handoff
