import Handoff.Checker.Basic
import Handoff.Error
import Handoff.Name.Qualified

/-!
# Task-spawning functions

A spawner is a function that runs some of its arguments as independent tasks. `Spawner.builtin`
lists the known ones and `Spawner.ofSpec` reads a configured one.
-/

namespace Handoff

/-- The call that wraps a closure into a task value, and the argument that holds the closure. -/
structure TaskConstructor where
  target : QualifiedName
  callback : Nat
deriving DecidableEq, Repr

structure Spawner where
  checker : Checker
  /-- Without a package the name is a function of the analysed file. -/
  target : QualifiedName
  /-- Argument positions that hold a callback. -/
  callbacks : List Nat
  /-- From this position on, every argument is a callback. -/
  variadicFrom : Option Nat
  /-- How the callbacks are wrapped, when they are task values. -/
  constructor : Option TaskConstructor
deriving DecidableEq, Repr

namespace Spawner

def single (checker : Checker) (target : QualifiedName) (callback : Nat) : Spawner :=
  ⟨checker, target, [callback], none, none⟩

def variadic (checker : Checker) (target : QualifiedName) (first : Nat) : Spawner :=
  ⟨checker, target, [], some first, none⟩

def label (s : Spawner) : String :=
  s.target.label

/-- A configured spawner. Its name needs a package; a name that does not parse is an error. -/
def ofSpec (target : String) (callback : Nat) (isVariadic : Bool)
    (wrapper : Option (String × Nat)) : Except SettingsError Spawner := do
  let some name := QualifiedName.parse target | throw (.invalidTarget target)
  if name.package.isNone then throw (.localTarget target)
  let plain := if isVariadic then variadic .spawner name callback else single .spawner name callback
  match wrapper with
  | none => return plain
  | some (text, argument) =>
    let some wrapping := QualifiedName.parse text | throw (.invalidConstructor text)
    return { plain with constructor := some ⟨wrapping, argument⟩ }

def errgroupPath : String := "golang.org/x/sync/errgroup"

def concPath : String := "github.com/sourcegraph/conc"

def concPoolPath : String := "github.com/sourcegraph/conc/pool"

def antsPath : String := "github.com/panjf2000/ants/v2"

def gotaskPath : String := "github.com/newmo-oss/gotask"

/-- The known spawners, in the order in which a call is matched against them. -/
def builtin : List Spawner :=
  [single .waitgroup (.method "sync" "WaitGroup" "Go") 0,
   single .errgroup (.method errgroupPath "Group" "Go") 0,
   single .errgroup (.method errgroupPath "Group" "TryGo") 0,
   single .spawner (.method concPath "WaitGroup" "Go") 0,
   single .spawner (.function antsPath "Submit") 0,
   single .spawner (.method antsPath "Pool" "Submit") 0]
  ++ ["Pool", "ErrorPool", "ContextPool"].map
      (fun pool => single .spawner (.method concPoolPath pool "Go") 0)
  ++ ["DoAll", "DoAllSettled", "DoRace"].map (fun name =>
      { variadic .gotask (.function gotaskPath name) 1 with
        constructor := some ⟨.function gotaskPath "NewTask", 0⟩ })
  ++ ["DoAllFns", "DoAllFnsSettled", "DoRaceFns"].map
      (fun name => variadic .gotask (.function gotaskPath name) 1)

end Spawner

end Handoff
