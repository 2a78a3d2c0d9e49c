import Handoff.Resolution.Token
import Handoff.TokenScope

/-!
# Mentions of a context

A node mentions a context when an identifier in it is bound to a context, or to an outer variable
that may hold one, or when it reads a field that is a context. Function literals nested in the node
are skipped on demand.
-/

namespace Handoff

open Syntax

/-- Whether an identifier, read inside `node`, may be a context. A variable without a type counts
only when it comes from outside. -/
def isTokenName (r : Resolution) (carriers : Carriers) (node ident : Node) : Bool :=
  match r.bindingOf ident with
  | none => false
  | some (i, b) =>
    match b.type with
    | some t => Carriers.isToken carriers t
    | none => !node.encloses b.decl && r.mayHoldToken carriers i

mutual

/-- Whether something at or below a node is a mention for `node`. -/
def mentionsBelow (r : Resolution) (carriers : Carriers) (node : Node) (intoLiterals : Bool) :
    Node → Bool
  | n@⟨label, children⟩ =>
    if label.kind = .identifier then isTokenName r carriers node n
    else
      r.isTokenField carriers n ||
        ((label.kind != .funcLiteral || intoLiterals || n.id == node.id) &&
          mentionsAmong r carriers node intoLiterals children)

def mentionsAmong (r : Resolution) (carriers : Carriers) (node : Node) (intoLiterals : Bool) :
    List Node → Bool
  | [] => false
  | c :: cs =>
    (c.isPart && mentionsBelow r carriers node intoLiterals c) ||
      mentionsAmong r carriers node intoLiterals cs

end

/-- Whether a node mentions a context. -/
def mentionsToken (r : Resolution) (carriers : Carriers) (intoLiterals : Bool) (node : Node) :
    Bool :=
  mentionsBelow r carriers node intoLiterals node

end Handoff
