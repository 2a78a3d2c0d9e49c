import Handoff.Syntax.Node

/-!
# The calls that a body makes

A body makes the calls in it on the way from its start to a `return`, arguments before the call
itself. A function literal runs elsewhere, unless it is called on the spot; of a `go` statement,
only the arguments are evaluated here. Calls under a `defer` happen when the body ends.
-/

namespace Handoff

open Syntax

structure CallSite where
  call : Node
  deferred : Bool
deriving Repr

namespace CallSite

/-- Whether a call's callee is a function literal. -/
def calleeIsLiteral (call : Node) : Bool :=
  (call.child? .function).any fun callee => callee.bare.kind == .funcLiteral

/-- Whether the first part of a node is a call. -/
def spawnsCall (statement : Node) : Bool :=
  statement.parts.head?.any fun first => first.kind == .callExpression

mutual

/-- The calls made by a node. -/
def within (deferred : Bool) : Node → List CallSite
  | n@⟨label, children⟩ =>
    match label.kind with
    | .block => withinStatements deferred children
    | .funcLiteral => []
    | .goStatement => if spawnsCall n then spawnArguments deferred children else []
    | .deferStatement => withinFirst true children
    | .callExpression =>
      withinField deferred .arguments children ++
        (if (n.child? .function).isNone then []
        else if calleeIsLiteral n then withinLiteralCallee deferred children
        else withinField deferred .function children ++ [⟨n, deferred⟩])
    | _ => withinAll deferred children

/-- The calls of all parts. -/
def withinAll (deferred : Bool) : List Node → List CallSite
  | [] => []
  | c :: cs => (if c.isPart then within deferred c else []) ++ withinAll deferred cs

/-- The calls of statements up to and with the first `return`. -/
def withinStatements (deferred : Bool) : List Node → List CallSite
  | [] => []
  | c :: cs =>
    if c.isPart then
      within deferred c ++
        (if c.kind = .returnStatement then [] else withinStatements deferred cs)
    else withinStatements deferred cs

/-- The calls of the first part. -/
def withinFirst (deferred : Bool) : List Node → List CallSite
  | [] => []
  | c :: cs => if c.isPart then within deferred c else withinFirst deferred cs

/-- The calls of the first child in a field. -/
def withinField (deferred : Bool) (field : Field) : List Node → List CallSite
  | [] => []
  | c :: cs => if c.field == some field then within deferred c else withinField deferred field cs

/-- The calls in the arguments of a spawned call. -/
def spawnArguments (deferred : Bool) : List Node → List CallSite
  | [] => []
  | c@⟨_, inner⟩ :: cs =>
    if c.isPart then withinField deferred .arguments inner else spawnArguments deferred cs

/-- The calls in the body of a literal that is called on the spot. -/
def withinLiteralCallee (deferred : Bool) : List Node → List CallSite
  | [] => []
  | c :: cs =>
    if c.field == some .function then withinLiteral deferred c
    else withinLiteralCallee deferred cs

/-- The calls in the body of a literal, parentheses around it stripped. -/
def withinLiteral (deferred : Bool) : Node → List CallSite
  | ⟨label, children⟩ =>
    if label.kind = .parenthesizedExpression then withinFirstLiteral deferred children
    else withinField deferred .body children

/-- The calls in the body of the literal that is the first part. -/
def withinFirstLiteral (deferred : Bool) : List Node → List CallSite
  | [] => []
  | c :: cs => if c.isPart then withinLiteral deferred c else withinFirstLiteral deferred cs

end

/-- The calls that a body makes, in order. -/
def ofBody (body : Node) : List CallSite :=
  within false body

end CallSite

end Handoff
