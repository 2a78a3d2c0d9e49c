import Handoff.Sort
import Handoff.Spawner.Match
import Handoff.Verdict.Mention

/-!
# Verdicts by search

A closure that is not located is searched for: through the writes of a variable, the elements of a
composite literal, the returns of a factory, the constructor of a task and the elements of a
collection. Each function reached is tested; what cannot be followed is assumed to pass. The search
is the same for every kind of verdict. It is bounded in depth and does not enter a variable or
factory it is already in.
-/

namespace Handoff

open Syntax

/-- How answers on several closures combine. -/
class Verdict (V : Type) where
  /-- The answer for what cannot be followed. -/
  assumed : V
  /-- Every candidate has to pass. -/
  both : V → V → V
  /-- One candidate that passes is enough. -/
  either : V → V → V

namespace Verdict

instance : Verdict Bool := ⟨true, (· && ·), (· || ·)⟩

instance : Verdict Outcome := ⟨.atStart, min, max⟩

variable {V : Type} [Verdict V]

/-- The answer when all candidates have to pass. -/
def all (answers : List V) : V :=
  answers.foldl both assumed

/-- The answer when one candidate has to pass; without a candidate it is assumed. -/
def some : List V → V
  | [] => assumed
  | answer :: answers => answers.foldl either answer

end Verdict

/-- The question that is asked of every function the search reaches. -/
structure ClosureTest (V : Type) where
  function : Node → V
  /-- An answer that the arguments of a factory call give at once. -/
  factoryArguments : Node → Option V

/-- Does a function use a context? -/
def captureTest (r : Resolution) (carriers : Carriers) : ClosureTest Bool where
  function f :=
    declaresToken r.imports carriers f ||
      match f.child? .body with
      | some body => mentionsToken r carriers false body
      | none => true
  factoryArguments call :=
    if call.arguments.any (mentionsToken r carriers true) then some true else none

/-- Where does a function make the required calls? -/
def outcomeTest (r : Resolution) (requirement : Requirement) : ClosureTest Outcome where
  function f :=
    match f.child? .body with
    | some body => requirement.outcome r (CallSite.ofBody body)
    | none => .atStart
  factoryArguments _ := none

namespace Search

/-- A write that may supply a value. -/
structure Supply where
  site : Node
  value : Option Node
  conditional : Bool
  /-- The write adds to a collection instead of replacing it. -/
  accumulates : Bool

def Supply.ofWrite (w : Write) : Supply :=
  ⟨w.site, w.value, w.conditional, false⟩

/-- A write that replaces whatever was there before. -/
def Supply.replaces (s : Supply) : Bool :=
  !s.conditional && !s.accumulates

/-- The list from its last member on that satisfies the predicate; the whole list without one. -/
def fromLast {α : Type} (p : α → Bool) (xs : List α) : List α :=
  xs.foldl (fun kept x => if p x then [x] else kept ++ [x]) []

/-- The writes that reach a site: from the last one that replaces all earlier ones, in source
order. -/
def reaching (supplies : List Supply) (site : Node) : List Supply :=
  let before := supplies.filter fun s => s.site.start < site.start && !s.site.encloses site
  fromLast Supply.replaces (sorted (fun a b => a.site.start ≤ b.site.start) before)

/-- What an expression is searched for. -/
inductive Goal where
  /-- A closure. -/
  | closure
  /-- A task value that a constructor wraps around a closure. -/
  | task (wrapper : TaskConstructor)
  /-- A collection of closures, or of tasks. -/
  | collection (wrapper : Option TaskConstructor)
deriving DecidableEq, Repr

/-- What the elements of a collection are searched for. -/
def Goal.ofElement : Option TaskConstructor → Goal
  | none => .closure
  | some wrapper => .task wrapper

/-- The search from a deeper level: what to look for, in which expression, read at which site,
inside which variables and factories. -/
abbrev Follow (V : Type) := Goal → Node → Node → List Nat → V

/-- The part of a value that is selected: a field by name, or an element by its index. -/
inductive Key where
  | field (name : String)
  | index (expr : Node)
deriving Repr

/-- The text that a key of a composite literal is compared with. -/
def Key.text : Key → String
  | .field name => name
  | .index expr => expr.text

/-- The key of a selection or index expression. -/
def Key.ofExpression (expr : Node) : Option Key :=
  if expr.kind = .selectorExpression then (expr.child? .member).map fun m => .field m.text
  else (expr.child? .index).map .index

/-- Whether a target of an assignment selects the key. -/
def Key.isOf (key : Key) (target : Node) : Bool :=
  match key with
  | .field name =>
    target.kind == .selectorExpression && (target.child? .member).any (·.text == name)
  | .index expr =>
    target.kind == .indexExpression && (target.child? .index).any (·.text == expr.text)

/-- A decimal position, as far as a machine word counts. -/
def position? (text : String) : Option Nat :=
  let cs := text.toList
  if cs.isEmpty || !cs.all Char.isDigit then none
  else
    let n := cs.foldl (fun n c => 10 * n + (c.toNat - '0'.toNat)) 0
    if n < UInt64.size then some n else none

/-- The value of the first element that a composite literal gives the key to. -/
def keyedElement? (key : Key) (elements : List Node) : Option Node :=
  elements.findSome? fun element =>
    if element.kind = .keyedElement then
      match element.parts with
      | k :: v :: _ => if k.element.text = key.text then some v.element else none
      | _ => none
    else none

/-- The element of a composite literal at a key. A literal index also counts the elements without
key. -/
def elementOf (literal : Node) (key : Key) : Option Node := do
  let elements := (← literal.child? .body).parts
  match keyedElement? key elements with
  | some value => return value
  | none =>
    match key with
    | .index expr =>
      if expr.kind = .intLiteral then
        let i ← position? expr.text
        let plain := elements.filter fun e => e.kind != .keyedElement
        return (← plain[i]?).element
      else none
    | .field _ => none

/-- An expression without parentheses and one unary operator such as `&`. -/
def stripAddress (n : Node) : Node :=
  let n := n.bare
  if n.kind = .unaryExpression then ((n.child? .operand).map Node.bare).getD n else n

/-- Whether an assignment writes to a field or an element. -/
def isMemberWrite (site : Node) : Bool :=
  site.kind == .assignmentStatement &&
    (site.child? .left).any fun left =>
      left.expressions.any fun target =>
        target.bare.kind == .selectorExpression || target.bare.kind == .indexExpression

/-- Whether an expression is a call of the built-in `append`. -/
def isAppend (r : Resolution) (call : Node) : Bool :=
  call.kind == .callExpression &&
    ((call.child? .function).map Node.bare).any fun f =>
      f.kind == .identifier && f.text == "append" && (r.useOf f).isNone

mutual

/-- The first value of every `return` at or below a node, nested functions left out. -/
def returns : Node → List Node
  | n@⟨label, children⟩ =>
    if label.kind.isFunction then []
    else if label.kind = .returnStatement then
      (n.parts.head?.bind fun list => list.expressions.head?).toList
    else returnsAll children

def returnsAll : List Node → List Node
  | [] => []
  | c :: cs => (if c.isPart then returns c else []) ++ returnsAll cs

end

/-- The first value of every `return` of a function. -/
def returnedValues (function : Node) : List Node :=
  ((function.child? .body).map returns).getD []

/-- The functions that a callee can stand for, up to a depth. -/
def factories (r : Resolution) : Nat → Node → List Node
  | 0, _ => []
  | n + 1, callee =>
    let callee := callee.bare
    match callee.kind with
    | .funcLiteral => [callee]
    | .identifier =>
      match r.bindingOf callee with
      | none => []
      | some (_, b) =>
        match b.kind, b.writes with
        | .function declaration, _ => [declaration]
        | .localVariable _, [only] =>
          ((only.value.map Node.bare).filter (·.kind == .funcLiteral)).toList
        | _, _ => []
    | .callExpression =>
      match callee.child? .function with
      | none => []
      | some inner =>
        ((factories r n inner).flatMap returnedValues).flatMap (factories r n)
    | _ => []

variable {V : Type} [Verdict V]

/-- Follows the writes of the variable behind a name that reach a site. `supplies` are the writes to
consider, `follow` searches a written value at its write. -/
def throughBinding (r : Resolution) (ident site : Node) (visited : List Nat)
    (supplies : Nat → Binding → List Supply) (follow : Node → Node → List Nat → V) : V :=
  match r.bindingOf ident with
  | none => Verdict.assumed
  | some (i, b) =>
    let isVariable :=
      match b.kind with
      | .localVariable _ | .packageVariable => true
      | _ => false
    if !isVariable || visited.contains b.decl.id then Verdict.assumed
    else
      Verdict.all ((reaching (supplies i b) site).map fun s =>
        match s.value with
        | some value => follow value s.site (b.decl.id :: visited)
        | none => Verdict.assumed)

def writesOf (_ : Nat) (b : Binding) : List Supply :=
  b.writes.map Supply.ofWrite

/-- A name that is called as a closure. -/
def identifier (r : Resolution) (test : ClosureTest V) (next : Follow V) (ident site : Node)
    (visited : List Nat) : V :=
  match (r.bindingOf ident).bind fun (_, b) => b.kind.declaration? with
  | some declaration => test.function declaration
  | none => throughBinding r ident site visited writesOf (next .closure)

/-- A call that yields the closure: some value that its factory returns has to pass. -/
def factoryCall (r : Resolution) (test : ClosureTest V) (next : Follow V) (depth : Nat)
    (call : Node) (visited : List Nat) : V :=
  match test.factoryArguments call with
  | some answer => answer
  | none =>
    match call.child? .function with
    | none => Verdict.assumed
    | some callee =>
      if callee.kind = .parenthesizedExpression && callee.bare.kind = .funcLiteral then
        Verdict.assumed
      else
        let entered := (factories r depth callee).filter fun f => !visited.contains f.id
        Verdict.some (entered.flatMap fun f =>
          (returnedValues f).map fun value => next .closure value value (f.id :: visited))

/-- The writes to a field or element of a variable that a node makes. -/
def memberWritesAt (r : Resolution) (key : Key) (i : Nat) (b : Binding) (n : Node) : List Supply :=
  if n.kind != .assignmentStatement then []
  else
    match n.child? .left, n.child? .right with
    | some left, some right =>
      let targets := left.expressions
      let values := right.expressions
      if targets.length != values.length then []
      else
        (targets.zip values).filterMap fun (target, value) =>
          let target := target.bare
          let isOfVariable := ((target.child? .operand).map Node.bare).any fun operand =>
            operand.kind == .identifier && r.useOf operand == some i
          if isOfVariable && key.isOf target then
            some ⟨n, some value, isConditional r.root n b.scope, false⟩
          else none
    | _, _ => []

/-- The writes to a field or element of a variable, anywhere in the file. -/
def memberWrites (r : Resolution) (key : Key) (i : Nat) (b : Binding) : List Supply :=
  r.root.preorder.flatMap (memberWritesAt r key i b)

/-- A field or element of a variable: from the literal it was built from, or from a later write. -/
def memberOf (next : Follow V) (key : Key) (value site : Node) (visited : List Nat) : V :=
  let value := stripAddress value
  if value.kind = .compositeLiteral then
    match elementOf value key with
    | some element => next .closure element site visited
    | none => Verdict.assumed
  else if isMemberWrite site then next .closure value site visited
  else Verdict.assumed

/-- A selection or index expression as the closure. -/
def member (r : Resolution) (next : Follow V) (expr site : Node) (visited : List Nat) : V :=
  match expr.child? .operand, Key.ofExpression expr with
  | some base, some key =>
    let base := base.bare
    match base.kind with
    | .compositeLiteral =>
      match elementOf base key with
      | some value => next .closure value base visited
      | none => Verdict.assumed
    | .identifier =>
      throughBinding r base site visited (fun i b => writesOf i b ++ memberWrites r key i b)
        (memberOf next key)
    | _ => Verdict.assumed
  | _, _ => Verdict.assumed

/-- A closure expression. -/
def closureStep (r : Resolution) (test : ClosureTest V) (next : Follow V) (depth : Nat)
    (expr site : Node) (visited : List Nat) : V :=
  let expr := expr.bare
  match expr.kind with
  | .funcLiteral => test.function expr
  | .identifier => identifier r test next expr site visited
  | .callExpression => factoryCall r test next depth expr visited
  | .selectorExpression | .indexExpression => member r next expr site visited
  | _ => Verdict.assumed

/-- A task value: the closure is an argument of the call that built it. -/
def taskStep (r : Resolution) (next : Follow V) (wrapper : TaskConstructor) (expr site : Node)
    (visited : List Nat) : V :=
  let expr := expr.bare
  match expr.kind with
  | .callExpression =>
    if r.calls expr wrapper.target then
      match expr.arguments[wrapper.callback]? with
      | some argument => next .closure argument expr visited
      | none => Verdict.assumed
    else Verdict.assumed
  | .identifier => throughBinding r expr site visited writesOf (next (.task wrapper))
  | _ => Verdict.assumed

/-- The writes of a collection; those that append to it do not replace it. -/
def collectionWrites (r : Resolution) (_ : Nat) (b : Binding) : List Supply :=
  b.writes.map fun w =>
    { Supply.ofWrite w with accumulates := w.value.any fun v => isAppend r v.bare }

/-- The value of an element of a composite literal, behind its key if it has one. -/
def elementValue? (element : Node) : Option Node :=
  if element.kind = .keyedElement then (element.parts[1]?).map Node.element
  else some element.element

/-- A collection: every element has to pass. -/
def collectionStep (r : Resolution) (next : Follow V) (wrapper : Option TaskConstructor)
    (expr site : Node) (visited : List Nat) : V :=
  let expr := expr.bare
  match expr.kind with
  | .compositeLiteral =>
    match expr.child? .body with
    | none => Verdict.assumed
    | some body =>
      Verdict.all ((body.parts.filterMap elementValue?).map fun value =>
        next (.ofElement wrapper) value expr visited)
  | .callExpression =>
    if isAppend r expr then
      Verdict.all ((expr.arguments.drop 1).map fun argument =>
        if argument.kind = .variadicArgument then
          match argument.parts.head? with
          | some inner => next (.collection wrapper) inner expr visited
          | none => Verdict.assumed
        else next (.ofElement wrapper) argument expr visited)
    else Verdict.assumed
  | .identifier =>
    throughBinding r expr site visited (collectionWrites r) (next (.collection wrapper))
  | _ => Verdict.assumed

/-- The search, `depth` levels deep. -/
def search (r : Resolution) (test : ClosureTest V) : Nat → Follow V
  | 0, _, _, _, _ => Verdict.assumed
  | depth + 1, goal, expr, site, visited =>
    let next := search r test depth
    match goal with
    | .closure => closureStep r test next (depth + 1) expr site visited
    | .task wrapper => taskStep r next wrapper expr site visited
    | .collection wrapper => collectionStep r next wrapper expr site visited

/-- How many levels a search goes down. -/
def maxDepth : Nat := 17

/-- The answer for a closure expression read at a site. -/
def closure (r : Resolution) (test : ClosureTest V) (expr site : Node) : V :=
  search r test maxDepth .closure expr site []

/-- The answer for a callback of a spawn call. -/
def callback (r : Resolution) (test : ClosureTest V) (spawner : Spawner) (callback : Callback)
    (call : Node) : V :=
  let goal :=
    if callback.spread then Goal.collection spawner.constructor
    else .ofElement spawner.constructor
  search r test maxDepth goal callback.expr call []

end Search

end Handoff
