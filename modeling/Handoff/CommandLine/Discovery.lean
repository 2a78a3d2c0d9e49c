import Handoff.CommandLine.Disk
import Handoff.CommandLine.Path
import Handoff.Configuration.Basic

/-!
# Finding files

The configuration lies beside the first path or in a directory above it. Directories are searched
for Go files, without tests unless they are asked for, and without directories of other people's
code.
-/

namespace Handoff

/-- What can go wrong while a command runs. -/
inductive Failure where
  | unknownChecker (name : String)
  | readConfiguration (path : String) (error : DiskError)
  | parseConfiguration (path : String) (error : SettingsError)
  | settings (error : SettingsError)
  | search (path : String) (error : DiskError)
  | read (error : DiskError)
deriving DecidableEq, Repr

def Failure.message : Failure → String
  | .unknownChecker name => "unknown checker: " ++ name
  | .readConfiguration path error =>
    "failed to read config file: " ++ path ++ ": " ++ error.message
  | .parseConfiguration path error =>
    "failed to parse config file: " ++ path ++ ": " ++ error.message
  | .settings error => error.message
  | .search path error =>
    "IO error for operation on " ++ path ++ ": " ++ error.message ++ ": " ++ error.message
  | .read error => error.message

namespace Discovery

variable {m : Type → Type} [Monad m]

def configurationName : String := "ctxflow.toml"

/-- The directories from one upwards, at most `n` of them. -/
def upwards : Nat → String → List String
  | 0, _ => []
  | n + 1, directory =>
    directory ::
      match Path.parent? directory with
      | some above => upwards n above
      | none => []

/-- The first of some paths that is a file. -/
def firstFile (d : Disk m) : List String → m (Option String)
  | [] => return none
  | path :: paths => do
    if ← d.isFile path then return some path else firstFile d paths

/-- The configuration file in a directory or above it. -/
def configurationPath (d : Disk m) (directory : String) : m (Option String) :=
  firstFile d ((upwards (directory.length + 2) directory).map fun above =>
    Path.join above configurationName)

/-- The directory in which the search for a configuration starts. -/
def startDirectory (d : Disk m) (paths : List String) : m String := do
  match paths with
  | [] => d.current
  | path :: _ =>
    if ← d.isFile path then return (Path.parent? path).getD "." else return path

def loadConfiguration (d : Disk m) (path : String) : ExceptT Failure m Configuration := do
  match ← d.read path with
  | .error e => throw (.readConfiguration path e)
  | .ok text =>
    match Configuration.parse text with
    | .ok c => return c
    | .error e => throw (.parseConfiguration path e)

/-- The configuration at a given path, or the one that is found for some paths. -/
def configuration (d : Disk m) (explicit : Option String) (paths : List String) :
    ExceptT Failure m Configuration := do
  match explicit with
  | some path => loadConfiguration d path
  | none =>
    let start ← ExceptT.lift (startDirectory d paths)
    match ← ExceptT.lift (configurationPath d start) with
    | some path => loadConfiguration d path
    | none => return .empty

def isGoFile (name : String) (tests : Bool) : Bool :=
  name.endsWith ".go" && (tests || !name.endsWith "_test.go")

/-- Directories that are not searched. -/
def isSkipped (name : String) : Bool :=
  ["vendor", "testdata", ".git"].contains name

/-- The results of an action on each member of a list, joined. -/
def gather {α β : Type} (f : α → ExceptT Failure m (List β)) : List α → ExceptT Failure m (List β)
  | [] => return []
  | a :: as => do
    let first ← f a
    return first ++ (← gather f as)

/-- The Go files below a directory, at most `depth` levels down. -/
def goFiles (d : Disk m) (tests : Bool) : Nat → String → ExceptT Failure m (List String)
  | 0, _ => return []
  | depth + 1, directory => do
    match ← d.list directory with
    | .error e => throw (.search directory e)
    | .ok entries =>
      gather (fun (name, kind) =>
        let path := Path.join directory name
        match kind with
        | .file => return if isGoFile name tests then [path] else []
        | .directory => if isSkipped name then return [] else goFiles d tests depth path)
        entries

/-- More levels than a path can name. -/
def maxDepth : Nat := 4096

/-- The files that a path stands for. A file stands for itself, whatever its name. -/
def filesAt (d : Disk m) (tests : Bool) (path : String) : ExceptT Failure m (List String) := do
  match ← d.kindOf path with
  | .ok .file => return [path]
  | .ok .directory => goFiles d tests maxDepth path
  | .error e => throw (.search path e)

/-- The files that some paths stand for, in order and each once. -/
def files (d : Disk m) (tests : Bool) (paths : List String) : ExceptT Failure m (List String) := do
  return Path.arranged (← gather (filesAt d tests) paths)

/-- Whether a line says that a tool wrote the file. -/
def isGeneratedMark (line : List Char) : Bool :=
  let opening := "// Code generated ".toList
  let ending := " DO NOT EDIT.".toList
  opening.isPrefixOf line && ending.isSuffixOf (line.drop opening.length)

/-- Whether a source says that a tool wrote it. -/
def isGenerated (source : String) : Bool :=
  (Text.pieces '\n' source.toList).any isGeneratedMark

end Discovery

end Handoff
