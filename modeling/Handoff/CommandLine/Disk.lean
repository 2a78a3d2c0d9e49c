/-!
# The disk

What the command line needs of a file system and its input, in any monad.
-/

namespace Handoff

inductive EntryKind where
  | file
  | directory
deriving DecidableEq, Repr

inductive DiskError where
  | missing
  | notDirectory
  | isDirectory
  /-- Any other failure, in the words of the system. -/
  | other (text : String)
deriving DecidableEq, Repr

def DiskError.message : DiskError → String
  | .missing => "No such file or directory (os error 2)"
  | .notDirectory => "Not a directory (os error 20)"
  | .isDirectory => "Is a directory (os error 21)"
  | .other text => text

/-- Paths are relative to the directory in which the program runs. -/
structure Disk (m : Type → Type) where
  /-- What stands at a path. -/
  kindOf : String → m (Except DiskError EntryKind)
  /-- The text of a file. -/
  read : String → m (Except DiskError String)
  /-- The entries of a directory. -/
  list : String → m (Except DiskError (List (String × EntryKind)))
  /-- The whole standard input. -/
  input : m String
  /-- The path of the directory in which the program runs. -/
  current : m String

namespace Disk

variable {m : Type → Type} [Monad m]

def isFile (d : Disk m) (path : String) : m Bool := do
  match ← d.kindOf path with
  | .ok .file => return true
  | _ => return false

end Disk

end Handoff
