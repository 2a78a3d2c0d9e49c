import Handoff.CommandLine.Run

/-!
# The programs

`main` checks Go files; `dumpMain` shows the syntax tree of one.
-/

namespace Handoff

/-- A failed action of the system as an error of the disk. -/
def diskError : IO.Error → DiskError
  | .noFileOrDirectory .. => .missing
  | .inappropriateType .. => .isDirectory
  | e => .other (toString e)

/-- An action with its failure as a value. -/
def attempt {α : Type} (action : IO α) : IO (Except DiskError α) := do
  match ← action.toBaseIO with
  | .ok a => return .ok a
  | .error e => return .error (diskError e)

def entryKind (type : IO.FS.FileType) : EntryKind :=
  match type with
  | .dir => .directory
  | _ => .file

/-- The disk of the system. -/
def systemDisk : Disk IO where
  kindOf path := attempt do
    return entryKind (← ((← IO.currentDir) / path).metadata).type
  read path := attempt (IO.FS.readFile path)
  list path := attempt do
    let entries ← ((← IO.currentDir) / path).readDir
    entries.toList.mapM fun entry => do
      return (entry.fileName, entryKind (← entry.path.metadata).type)
  input := do (← IO.getStdin).readToEnd
  current := do return (← IO.currentDir).toString

/-- Prints what a run leaves behind. -/
def deliver (reply : Reply) : IO UInt32 := do
  IO.print reply.output
  IO.eprint reply.errors
  return reply.exitCode.toUInt32

/-- The program that shows a syntax tree. -/
def dumpMain (arguments : List String) : IO UInt32 := do
  deliver (← Command.runDump systemDisk arguments)

end Handoff

def main (arguments : List String) : IO UInt32 := do
  Handoff.deliver (← Handoff.Command.runArguments Handoff.systemDisk arguments)
