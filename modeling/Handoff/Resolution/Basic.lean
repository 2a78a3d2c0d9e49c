import Handoff.Resolution.Import
import Handoff.Sort

/-!
# Resolved names

The resolution of a file holds the bindings it declares, the binding behind each identifier, the
types that the file shows, and the writes to each binding. A write is conditional when control flow
or a function stands between it and the scope of the binding.
-/

namespace Handoff

open Syntax

/-- A write to a binding. -/
structure Write where
  /-- The statement or spec that writes. -/
  site : Node
  /-- The written expression; none when one call feeds several names. -/
  value : Option Node
  conditional : Bool
deriving Repr

inductive BindingKind where
  /-- A function of the file, with its declaration. -/
  | function (declaration : Node)
  /-- A variable or constant of the package. -/
  | packageVariable
  /-- A receiver, parameter or named result. -/
  | parameter
  /-- Any other variable; whether a `var` or `const` spec declares it. -/
  | localVariable (bySpec : Bool)
deriving Repr

namespace BindingKind

def isLocal : BindingKind → Bool
  | .localVariable _ => true
  | _ => false

def isPackageLevel : BindingKind → Bool
  | .function _ | .packageVariable => true
  | _ => false

def isFunction : BindingKind → Bool
  | .function _ => true
  | _ => false

/-- The declaration behind the name of a function. -/
def declaration? : BindingKind → Option Node
  | .function declaration => some declaration
  | _ => none

end BindingKind

structure Binding where
  name : String
  kind : BindingKind
  /-- The declaring identifier. -/
  decl : Node
  /-- The innermost function around the declaration. -/
  owner : Option Node
  /-- The node whose scope holds the binding. -/
  scope : Node
  type : Option TypeName
  writes : List Write
deriving Repr

/-- What one file shows about its names. -/
structure Resolution where
  root : Node
  imports : Imports
  bindings : List Binding
  /-- The binding behind an identifier, by the numbers of both; the first entry counts. -/
  uses : List (Nat × Nat)
  /-- Field types of the file's structs, by struct and field name; the first entry counts. -/
  fieldTypes : List ((String × String) × TypeName)
  /-- Result types of the file's functions; the first entry counts. -/
  results : List (String × List (Option TypeName))

/-- Whether control flow or a function stands between a site and the scope around it. -/
def isConditional (root site scope : Node) : Bool :=
  ((root.ancestors site).takeWhile (·.id != scope.id)).any fun n =>
    n.kind.isControlFlow || n.kind.isFunction

namespace Resolution

/-- The number of the binding behind an identifier. -/
def useOf (r : Resolution) (n : Node) : Option Nat :=
  r.uses.lookup n.id

/-- The binding behind an identifier, with its number. -/
def bindingOf (r : Resolution) (n : Node) : Option (Nat × Binding) := do
  let i ← r.useOf n
  let b ← r.bindings[i]?
  return (i, b)

/-- Whether the first binding is declared before the second; numbers of no binding come last. -/
def isDeclaredBefore (r : Resolution) (i j : Nat) : Bool :=
  match r.bindings[i]?, r.bindings[j]? with
  | some a, some b => a.decl.start ≤ b.decl.start
  | _, none => true
  | none, _ => false

/-- Numbers of bindings by the place of their declaration. -/
def sortedByDeclaration (r : Resolution) (is : List Nat) : List Nat :=
  sorted r.isDeclaredBefore is

/-- All bindings with their numbers, by the place of their declaration. -/
def inDeclarationOrder (r : Resolution) : List (Nat × Binding) :=
  (r.sortedByDeclaration (List.range r.bindings.length)).filterMap fun i =>
    r.bindings[i]?.map fun b => (i, b)

/-- The import path of a package name. A binding of that name hides the package. -/
def packageOf (r : Resolution) (n : Node) : Option String :=
  if n.kind = .identifier && (r.useOf n).isNone then r.imports.resolve n.text else none

/-- The type of a result of a call, when the file shows the callee's results. -/
def callResult (r : Resolution) (call : Node) (index : Nat) : Option TypeName := do
  let callee := (← call.child? .function).bare
  match callee.kind with
  | .identifier =>
    match r.bindingOf callee with
    | none =>
      if callee.text = "new" && index = 0 && (r.useOf callee).isNone then
        let arguments ← call.child? .arguments
        r.imports.typeOf (← arguments.parts.head?)
      else none
    | some (_, b) =>
      if b.kind.isFunction then ((← r.results.lookup callee.text)[index]?).join else none
  | .selectorExpression =>
    let operand ← callee.child? .operand
    let member ← callee.child? .member
    let path ← r.packageOf operand
    ((← knownResults path member.text)[index]?).join
  | _ => none

mutual

/-- The type of an expression, as far as the file shows it. -/
def typeOf (r : Resolution) : Node → Option TypeName
  | n@⟨label, children⟩ =>
    match label.kind with
    | .parenthesizedExpression => typeOfFirst r children
    | .identifier => (r.bindingOf n).bind fun (_, b) => b.type
    | .compositeLiteral => r.imports.declaredType n
    | .unaryExpression =>
      match (n.child? .operator).map Node.text with
      | some "&" | some "*" => typeOfOperand r children
      | _ => none
    | .selectorExpression => do
      let member ← n.child? .member
      let owner ← typeOfOperand r children
      if owner.isOfFile then r.fieldTypes.lookup (owner.name, member.text) else none
    | .callExpression => r.callResult n 0
    | _ => none

/-- The type of the first part of a list of children. -/
def typeOfFirst (r : Resolution) : List Node → Option TypeName
  | [] => none
  | c :: cs => if c.isPart then typeOf r c else typeOfFirst r cs

/-- The type of the operand among some children. -/
def typeOfOperand (r : Resolution) : List Node → Option TypeName
  | [] => none
  | c :: cs => if c.field == some .operand then typeOf r c else typeOfOperand r cs

end

/-- The type of the target at a position when `values` are written to `count` targets. -/
def typeOfTarget (r : Resolution) (values : List Node) (index count : Nat) : Option TypeName :=
  if values.length = count then values[index]?.bind r.typeOf
  else
    match values.map Node.bare with
    | [value] => if value.kind = .callExpression then r.callResult value index else none
    | _ => none

end Resolution

end Handoff
