import Handoff.Closure.Call
import Handoff.Requirement.Basic
import Handoff.Resolution.Basic

/-!
# Where a body makes the required calls

A requirement is met at the start when all members of some alternative are called outside `defer`,
and only in `defer` when some alternative is met once deferred calls count as well.
-/

namespace Handoff

open Syntax

inductive Outcome where
  | missing
  | deferred
  | atStart
deriving DecidableEq, Repr

namespace Outcome

/-- The outcomes from worst to best. -/
def rank : Outcome → Nat
  | .missing => 0
  | .deferred => 1
  | .atStart => 2

instance : LE Outcome := ⟨fun a b => a.rank ≤ b.rank⟩

instance (a b : Outcome) : Decidable (a ≤ b) := inferInstanceAs (Decidable (a.rank ≤ b.rank))

instance : Min Outcome := ⟨fun a b => if a ≤ b then a else b⟩

instance : Max Outcome := ⟨fun a b => if a ≤ b then b else a⟩

end Outcome

namespace Resolution

/-- Whether an operand names the package at a path. -/
def isPackage (r : Resolution) (operand : Node) (path : String) : Bool :=
  (r.packageOf operand).any fun found => samePackage found path

/-- Whether an operand has a type of the package at a path. -/
def hasType (r : Resolution) (operand : Node) (path name : String) : Bool :=
  (r.typeOf operand).any fun found => found.isNamed (some path) name

/-- Whether a call is one of the named function. A bare name means every function or method of that
name. -/
def calls (r : Resolution) (call : Node) (name : QualifiedName) : Bool :=
  match (call.child? .function).map Node.bare with
  | none => false
  | some callee =>
    match callee.kind with
    | .identifier => callee.text == name.name && name.package.isNone
    | .selectorExpression =>
      match callee.child? .operand, callee.child? .member with
      | some operand, some member =>
        member.text == name.name &&
          match name.package, name.receiver with
          | none, _ => true
          | some path, none => r.isPackage operand path
          | some path, some receiver => r.hasType operand path receiver
      | _, _ => false
    | _ => false

end Resolution

namespace Requirement

/-- Whether some of the calls is one of the named function. -/
def isCalled (r : Resolution) (calls : List CallSite) (name : QualifiedName) : Bool :=
  calls.any fun site => r.calls site.call name

/-- Whether the calls meet some alternative. -/
def isMet (requirement : Requirement) (r : Resolution) (calls : List CallSite) : Bool :=
  requirement.groups.any fun group => group.all (isCalled r calls)

/-- Where the calls of a body meet the requirement. -/
def outcome (requirement : Requirement) (r : Resolution) (calls : List CallSite) : Outcome :=
  if requirement.isMet r (calls.filter fun site => !site.deferred) then .atStart
  else if requirement.isMet r calls then .deferred
  else .missing

end Requirement

end Handoff
