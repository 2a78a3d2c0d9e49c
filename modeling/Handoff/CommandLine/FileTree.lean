import Handoff.CommandLine.Disk
import Handoff.CommandLine.Path

/-!
# A disk in memory

A file tree is a list of files by the names on the way to them. Directories are what lies on the
way.
-/

namespace Handoff

structure FileTree where
  files : List (List String × String)

namespace FileTree

/-- The tree of files with their paths from its root. -/
def ofPaths (files : List (String × String)) : FileTree :=
  ⟨files.map fun (path, text) => ((Path.slashed path).filter (· != ""), text)⟩

/-- What stands at the end of some names. -/
def kindAt (t : FileTree) (names : List String) : Except DiskError EntryKind :=
  if t.files.any (·.1 == names) then .ok .file
  else if names.isEmpty || t.files.any (names.isPrefixOf ·.1) then .ok .directory
  else .error .missing

/-- Goes one piece of a path on, which needs a directory. Above the root there is nothing. -/
def step (t : FileTree) (names : List String) (piece : String) :
    Except DiskError (List String) := do
  match ← t.kindAt names with
  | .file => throw .notDirectory
  | .directory =>
    if piece = "" || piece = "." then return names
    else if piece = ".." then
      if names.isEmpty then throw .missing else return names.dropLast
    else return names ++ [piece]

/-- The names that a path leads to, and what stands there. -/
def locate (t : FileTree) (path : String) : Except DiskError (List String × EntryKind) := do
  if path.isEmpty || Path.isAbsolute path then throw .missing
  let names ← (Path.slashed path).foldlM t.step []
  return (names, ← t.kindAt names)

def read (t : FileTree) (path : String) : Except DiskError String := do
  match ← t.locate path with
  | (_, .directory) => throw .isDirectory
  | (names, .file) =>
    match t.files.lookup names with
    | some text => return text
    | none => throw .missing

/-- The names that stand directly behind some names. -/
def below (t : FileTree) (names : List String) : List String :=
  (t.files.filterMap fun (file, _) =>
    if names.isPrefixOf file then file[names.length]? else none).eraseDups

def list (t : FileTree) (path : String) : Except DiskError (List (String × EntryKind)) := do
  match ← t.locate path with
  | (_, .file) => throw .notDirectory
  | (names, .directory) =>
    (t.below names).mapM fun name => return (name, ← t.kindAt (names ++ [name]))

/-- The tree as a disk, with a text as standard input. -/
def disk (t : FileTree) (input : String) : Disk Id where
  kindOf path := (t.locate path).map Prod.snd
  read path := t.read path
  list path := t.list path
  input := input
  current := ""

end FileTree

end Handoff
