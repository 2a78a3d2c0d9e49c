import Handoff.Resolution.Basic

/-!
# Which bindings may hold a context

A binding with a type answers by its type. A local variable without one may hold a context when
something that the file cannot type is written to it, directly or through copies of other such
variables. The copies are followed with a list of the bindings already reached.
-/

namespace Handoff

open Syntax

/-- What a written value says about a variable without a type. -/
inductive Origin where
  /-- It may be a context. -/
  | unknown
  /-- It cannot be one. -/
  | plain
  /-- It is what another binding holds. -/
  | copy (i : Nat)
deriving DecidableEq, Repr

namespace Resolution

/-- Values of these kinds are no contexts. -/
def isPlainKind : Kind → Bool
  | .intLiteral | .floatLiteral | .imaginaryLiteral | .runeLiteral | .interpretedStringLiteral
  | .rawStringLiteral | .trueLiteral | .falseLiteral | .nilLiteral | .iota | .funcLiteral
  | .compositeLiteral | .binaryExpression => true
  | _ => false

/-- The origin of a written expression. A name without a binding belongs to another file of the
package; of the unary operators, only a receive and a dereference yield something unknown. -/
def originOf (r : Resolution) (value : Node) : Origin :=
  let value := value.bare
  match value.kind with
  | .identifier =>
    match r.useOf value with
    | some i => .copy i
    | none => .unknown
  | .unaryExpression =>
    match (value.child? .operator).map Node.text with
    | some "<-" | some "*" => .unknown
    | _ => .plain
  | kind => if isPlainKind kind then .plain else .unknown

/-- The origins of a variable without a type. One that is never written and not declared by a spec
is bound by a clause; what that yields is unknown. -/
def origins (r : Resolution) (b : Binding) : List Origin :=
  match b.type, b.kind with
  | none, .localVariable bySpec =>
    if b.writes.isEmpty then [if bySpec then .plain else .unknown]
    else b.writes.map fun w => (w.value.map r.originOf).getD .unknown
  | _, _ => []

/-- The bindings that a binding without a type copies. -/
def copies (r : Resolution) (i : Nat) : List Nat :=
  match r.bindings[i]? with
  | none => []
  | some b => (r.origins b).filterMap fun
    | .copy j => some j
    | _ => none

/-- Whether a binding may hold a context on its own account. -/
def isSource (r : Resolution) (carriers : Carriers) (i : Nat) : Bool :=
  match r.bindings[i]? with
  | none => false
  | some b =>
    match b.type with
    | some t => Carriers.isToken carriers t
    | none => (r.origins b).contains .unknown

/-- The bindings reached through copies in at most `n` rounds: `frontier` was reached last. -/
def reachedBy (r : Resolution) : Nat → List Nat → List Nat → List Nat
  | 0, _, reached => reached
  | n + 1, frontier, reached =>
    match ((frontier.flatMap r.copies).filter fun i => !reached.contains i).eraseDups with
    | [] => reached
    | next => r.reachedBy n next (reached ++ next)

/-- Whether a binding may hold a context. -/
def mayHoldToken (r : Resolution) (carriers : Carriers) (i : Nat) : Bool :=
  (r.reachedBy r.bindings.length [i] [i]).any (r.isSource carriers)

/-- Whether an expression reads a field whose type is a context. -/
def isTokenField (r : Resolution) (carriers : Carriers) (n : Node) : Bool :=
  n.kind == .selectorExpression && (r.typeOf n).any (Carriers.isToken carriers)

end Resolution

end Handoff
