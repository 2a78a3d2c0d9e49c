import Handoff.Requirement.Outcome
import Handoff.Spawner.Basic

/-!
# Spawn sites

A call is a spawn site when its callee is a known spawner: a function of an imported package, a
method of a receiver whose type the file shows, or a function of the file that carries a mark.
`SpawnSite.ofCall` picks the callbacks out of its arguments.
-/

namespace Handoff

open Syntax

/-- A callback argument of a spawn site. -/
structure Callback where
  expr : Node
  /-- The position of one of several callbacks, counted from one. -/
  ordinal : Option Nat
  /-- The expression is a collection of callbacks. -/
  spread : Bool
deriving Repr

structure SpawnSite where
  spawner : Spawner
  callbacks : List Callback
deriving Repr

namespace Spawner

/-- Whether a callee, without parentheses, is the spawner's function. -/
def isCallee (s : Spawner) (r : Resolution) (callee : Node) : Bool :=
  match callee.kind with
  | .identifier =>
    s.target.package.isNone && s.target.receiver.isNone && callee.text == s.target.name &&
      (r.bindingOf callee).any fun (_, b) => b.kind.isFunction
  | .selectorExpression =>
    match callee.child? .operand, callee.child? .member with
    | some operand, some member =>
      member.text == s.target.name &&
        match s.target.package, s.target.receiver with
        | none, _ => false
        | some path, none => r.isPackage operand path
        | some path, some receiver => r.hasType operand path receiver
    | _, _ => false
  | _ => false

/-- The collection behind a spread argument. -/
def spreadInner (argument : Node) : Node :=
  if argument.kind = .variadicArgument then (argument.parts.head?).getD argument else argument

/-- The callbacks at fixed positions. -/
def fixedCallbacks (s : Spawner) (arguments : List Node) : List Callback :=
  (s.callbacks.filterMap fun i => arguments[i]?).map fun expr => ⟨spreadInner expr, none, false⟩

/-- The callbacks from a position on: one each, or a single one for a spread collection. -/
def variadicCallbacks (first : Nat) (arguments : List Node) : List Callback :=
  let rest := arguments.drop first
  match rest.getLast? with
  | none => []
  | some last =>
    if last.kind = .variadicArgument then [⟨spreadInner last, none, true⟩]
    else rest.zipIdx.map fun (expr, i) => ⟨expr, some (first + i + 1), false⟩

def callbacksOf (s : Spawner) (call : Node) : List Callback :=
  s.fixedCallbacks call.arguments ++
    match s.variadicFrom with
    | some first => variadicCallbacks first call.arguments
    | none => []

end Spawner

/-- The spawn site that a call is. The first spawner that matches counts. -/
def SpawnSite.ofCall (spawners : List Spawner) (r : Resolution) (call : Node) :
    Option SpawnSite := do
  let callee := (← call.child? .function).bare
  let spawner ← spawners.find? fun s => s.isCallee r callee
  return ⟨spawner, spawner.callbacksOf call⟩

namespace Spawner

/-- A parameter declaration with the position of its first parameter. -/
def withPositions (next : Nat) : List Node → List (Node × Nat)
  | [] => []
  | d :: ds => (d, next) :: withPositions (next + d.parameterCount) ds

def isFunctionTyped (declaration : Node) : Bool :=
  (declaration.child? .type).any (·.kind == .functionType)

/-- The spawner that a marked function of the file is: all its function parameters are callbacks. -/
def ofDeclaration (declaration : Node) : Option Spawner := do
  let name ← declaration.child? .name
  let list ← declaration.child? .parameters
  let typed := (withPositions 0 list.parts).filter fun (d, _) => isFunctionTyped d
  let isVariadic (d : Node × Nat) := d.1.kind == .variadicParameterDeclaration
  let fixed := (typed.filter fun d => !isVariadic d).flatMap fun (d, i) =>
    List.range' i d.parameterCount
  let spread := (typed.filter isVariadic).getLast?.map Prod.snd
  if fixed.isEmpty && spread.isNone then none
  else return ⟨.spawner, .bare name.text, fixed, spread, none⟩

/-- The functions of a file with a mark on their line or the line above. -/
def ofMarks (root : Node) (marks : List Nat) : List Spawner :=
  let marked := root.parts.filter fun d =>
    d.kind == .functionDeclaration && (marks.contains d.line || marks.contains (d.line - 1))
  marked.filterMap ofDeclaration

end Spawner

end Handoff
