import Handoff.Closure.Graph
import Handoff.Requirement.Outcome
import Handoff.Resolution.Token
import Handoff.TokenScope

/-!
# Verdicts from the capture graph

A closure is located when its expression is a function literal, a function of the file, or a local
variable with a single write that is a function literal. The unit behind it then decides; without a
unit there is no verdict.
-/

namespace Handoff

open Syntax

/-- Whether a closure uses a context. -/
inductive Capture where
  | satisfied
  | unsatisfied
  | indeterminate
deriving DecidableEq, Repr

/-- The function literal that the only write to a variable assigns. -/
def Binding.soleLiteral (b : Binding) : Option Node :=
  match b.writes with
  | [only] => (only.value.map Node.bare).filter (·.kind == .funcLiteral)
  | _ => none

/-- The function that an expression stands for, when that is certain. -/
def Resolution.functionOf (r : Resolution) (expr : Node) : Option Node :=
  let expr := expr.bare
  match expr.kind with
  | .funcLiteral => some expr
  | .identifier =>
    match r.bindingOf expr with
    | none => none
    | some (_, b) =>
      match b.kind with
      | .function declaration => some declaration
      | .localVariable _ => b.soleLiteral
      | _ => none
  | _ => none

namespace CaptureGraph

/-- The unit behind a closure expression. -/
def locate (g : CaptureGraph) (r : Resolution) (expr : Node) : Option FunctionUnit :=
  (r.functionOf expr).bind g.unitOf

end CaptureGraph

/-- Whether a unit declares a context, captures one or reads one from a field. -/
def FunctionUnit.usesToken (unit : FunctionUnit) (r : Resolution) (carriers : Carriers) : Bool :=
  declaresToken r.imports carriers unit.function ||
    unit.captures.any (r.mayHoldToken carriers) ||
    unit.function.preorder.any (r.isTokenField carriers)

/-- The verdict of the graph on a closure; without a graph there is none. -/
def traceCapture (g : Option CaptureGraph) (r : Resolution) (carriers : Carriers) (expr : Node) :
    Capture :=
  match g.bind fun g => g.locate r expr with
  | none => .indeterminate
  | some unit => if unit.usesToken r carriers then .satisfied else .unsatisfied

/-- Where the unit behind a closure makes the required calls. -/
def traceOutcome (g : Option CaptureGraph) (r : Resolution) (requirement : Requirement)
    (expr : Node) : Option Outcome :=
  (g.bind fun g => g.locate r expr).map fun unit => requirement.outcome r unit.calls

end Handoff
