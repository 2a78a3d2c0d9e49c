import Handoff.Name.Qualified
import Handoff.Spawner.Basic

/-!
# Named types and context carriers

One file shows a type only by name. The context is `context.Context`; other types may be configured
to carry one. `knownResults` gives the result types of functions that other packages declare.
-/

namespace Handoff

/-- A named type, pointers and type arguments stripped. -/
structure TypeName where
  /-- The import path, empty for the file's own package. -/
  package : String
  name : String
deriving DecidableEq, Repr

namespace TypeName

def ofFile (name : String) : TypeName :=
  ⟨"", name⟩

def context : TypeName :=
  ⟨"context", "Context"⟩

def isOfFile (t : TypeName) : Bool :=
  t.package.isEmpty

/-- Whether a configured name means this type, major versions aside. -/
def isNamed (t : TypeName) (package : Option String) (name : String) : Bool :=
  t.name == name &&
    match package with
    | some path => samePackage t.package path
    | none => t.isOfFile

end TypeName

/-- The configured types that carry a context besides `context.Context`. -/
abbrev Carriers := List QualifiedName

/-- Whether a value of the type is a context. -/
def Carriers.isToken (carriers : Carriers) (t : TypeName) : Bool :=
  t.isNamed (some TypeName.context.package) TypeName.context.name ||
    carriers.any fun carrier => t.isNamed carrier.package carrier.name

/-- Result types of well-known functions of other packages. -/
def knownResults (package function : String) : Option (List (Option TypeName)) :=
  if package = "context" then
    if ["Background", "TODO", "WithValue", "WithoutCancel"].contains function then
      some [some .context]
    else if ["WithCancel", "WithTimeout", "WithDeadline", "WithCancelCause", "WithTimeoutCause",
        "WithDeadlineCause"].contains function then
      some [some .context, none]
    else none
  else if package = Spawner.errgroupPath then
    if function = "WithContext" then some [some ⟨package, "Group"⟩, some .context] else none
  else if package = Spawner.concPoolPath then
    if function = "New" then some [some ⟨package, "Pool"⟩] else none
  else if package = Spawner.concPath then
    if function = "NewWaitGroup" then some [some ⟨package, "WaitGroup"⟩] else none
  else none

end Handoff
