import Handoff.Text.Split

/-!
# Import paths

A package is named by its import path. A last element `vN` is a major version and does not tell
packages apart; `samePackage` compares paths without it. `defaultPackageName` is the name a file
uses for an import without an alias.
-/

namespace Handoff.Package

open Text

/-- `v` followed by ASCII digits. -/
def isMajorVersion : List Char → Bool
  | 'v' :: digits => !digits.isEmpty && digits.all Char.isDigit
  | _ => false

/-- The path without a last element that is a major version. -/
def stem (path : List Char) : List Char :=
  match splitLast '/' path with
  | some (before, last) => if isMajorVersion last then before else path
  | none => path

/-- The last element of a path. -/
def lastElement (path : List Char) : List Char :=
  ((splitLast '/' path).map Prod.snd).getD path

/-- A last element `name.vN` is referred to as `name`. -/
def nameOf (path : List Char) : List Char :=
  let last := lastElement (stem path)
  match splitFirst '.' last with
  | some (before, after) => if isMajorVersion after then before else last
  | none => last

end Handoff.Package

namespace Handoff

/-- An import path without its major version. -/
def stripMajorVersion (path : String) : String :=
  String.ofList (Package.stem path.toList)

/-- The name a package is referred to by when it is imported without an alias. -/
def defaultPackageName (path : String) : String :=
  String.ofList (Package.nameOf path.toList)

/-- Two import paths that name one package, major versions aside. -/
def samePackage (a b : String) : Bool :=
  stripMajorVersion a == stripMajorVersion b

theorem samePackage_refl (a : String) : samePackage a a = true := by
  simp [samePackage]

theorem samePackage_symm (a b : String) : samePackage a b = samePackage b a := by
  simp [samePackage, Bool.beq_comm]

end Handoff
