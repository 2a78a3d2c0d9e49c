import Handoff.Checker.Basic

/-!
# The wording of findings

A finding about a callback names the spawning function by its label and, among several callbacks of
one call, the argument by an English ordinal.
-/

namespace Handoff

/-- `1st`, `2nd`, `3rd`, `4th`, …, with `11th` to `13th`. -/
def ordinalWord (n : Nat) : String :=
  let ending :=
    if 11 ≤ n % 100 ∧ n % 100 ≤ 13 then "th"
    else
      match n % 10 with
      | 1 => "st"
      | 2 => "nd"
      | 3 => "rd"
      | _ => "th"
  toString n ++ ending

/-- Names in double quotes, separated by commas. -/
def quotedNames (names : List String) : String :=
  ", ".intercalate (names.map fun name => "\"" ++ name ++ "\"")

/-- A callback of the function `label`, by its position when it has one. -/
def callbackPlace (label : String) : Option Nat → String
  | some n => label ++ "() " ++ ordinalWord n ++ " argument"
  | none => label ++ "() func argument"

/-- A closure that uses none of the contexts in scope. -/
def Checker.propagationMessage (checker : Checker) (label : String) (contexts : List String)
    (ordinal : Option Nat) : String :=
  match checker with
  | .goroutine => "goroutine does not propagate context " ++ quotedNames contexts
  | .errgroup | .waitgroup => label ++ "() closure should use context " ++ quotedNames contexts
  | _ => callbackPlace label ordinal ++ " should use context " ++ quotedNames contexts

/-- A closure that never makes the required calls. -/
def derivationMissing (place requirement : String) : String :=
  place ++ " should call " ++ requirement ++ " to derive new context"

/-- A closure that makes the required calls only when it ends. -/
def derivationDeferred (place requirement : String) : String :=
  place ++ " calls " ++ requirement ++ " in defer, but it should be called at goroutine start"

end Handoff
