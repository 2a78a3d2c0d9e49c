import Handoff.Syntax.Kind
import Handoff.Syntax.Position

/-!
# Syntax trees

A node has a number that tells it apart from the other nodes of its tree, a kind, the field it fills
in its parent, the span and the text it covers, and its children in source order. Everything that
later modules ask of a tree is built from a few walks: `preorder` lists all nodes, `ancestors` the
nodes around one, and `bare` looks through parentheses.
-/

namespace Handoff.Syntax

structure Label where
  id : Nat
  kind : Kind
  field : Option Field
  span : Span
  text : String
deriving Repr

structure Node where
  label : Label
  children : List Node
deriving Repr

namespace Node

def id (n : Node) : Nat := n.label.id

def kind (n : Node) : Kind := n.label.kind

def field (n : Node) : Option Field := n.label.field

def span (n : Node) : Span := n.label.span

def text (n : Node) : String := n.label.text

/-- The byte at which a node starts. -/
def start (n : Node) : Nat := n.span.start.byte

/-- The line of a node's start, counted from one. -/
def line (n : Node) : Nat := n.span.start.row + 1

/-- Whether a node's span lies in that of another. -/
def encloses (outer inner : Node) : Bool := outer.span.contains inner.span

/-- A child that carries meaning: named and no comment. -/
def isPart (n : Node) : Bool :=
  n.kind.isNamed && n.kind != .comment

/-- The named children, comments left out. -/
def parts (n : Node) : List Node :=
  n.children.filter isPart

/-- The first child in a field. -/
def child? (n : Node) (f : Field) : Option Node :=
  n.children.find? fun c => c.field == some f

/-- All children in a field, tokens included. -/
def inField (n : Node) (f : Field) : List Node :=
  n.children.filter fun c => c.field == some f

/-- Whether some child is the given token. -/
def hasToken (n : Node) (text : String) : Bool :=
  n.children.any fun c => c.kind == .token text

mutual

/-- The node and everything below it, each node before its children. -/
def preorder : Node → List Node
  | n@⟨_, children⟩ => n :: preorderAll children

def preorderAll : List Node → List Node
  | [] => []
  | c :: cs => preorder c ++ preorderAll cs

end

mutual

/-- The nodes above the one with the given number, innermost first. -/
def ancestors? (id : Nat) : Node → Option (List Node)
  | n@⟨_, children⟩ =>
    if n.id = id then some [] else (ancestorsAmong? id children).map (· ++ [n])

def ancestorsAmong? (id : Nat) : List Node → Option (List Node)
  | [] => none
  | c :: cs =>
    match ancestors? id c with
    | some above => some above
    | none => ancestorsAmong? id cs

end

/-- The nodes above `n` in the tree of `root`, innermost first. -/
def ancestors (root n : Node) : List Node :=
  (ancestors? n.id root).getD []

mutual

/-- An expression without the parentheses around it. -/
def bare : Node → Node
  | n@⟨label, children⟩ =>
    if label.kind = .parenthesizedExpression then (firstBare children).getD n else n

/-- The first part of a list of children, without parentheses. -/
def firstBare : List Node → Option Node
  | [] => none
  | c :: cs => if c.isPart then some (bare c) else firstBare cs

end

/-- The expressions of an expression list; any other node stands for itself. -/
def expressions (n : Node) : List Node :=
  if n.kind = .expressionList then n.parts else [n]

/-- The arguments of a call, in source order. -/
def arguments (call : Node) : List Node :=
  ((call.child? .arguments).map parts).getD []

/-- The value inside the wrapper that composite literals put around their parts. -/
def element (n : Node) : Node :=
  if n.kind = .literalElement then (n.parts.head?).getD n else n

/-- Whether part of the text could not be read. -/
def hasErrors (root : Node) : Bool :=
  root.preorder.any fun n => n.kind == .error

theorem preorder_eq (n : Node) : n.preorder = n :: preorderAll n.children := by
  cases n
  rw [preorder]

@[simp]
theorem self_mem_preorder (n : Node) : n ∈ n.preorder := by
  simp [preorder_eq]

@[simp]
theorem preorderAll_nil : preorderAll [] = [] := by
  rw [preorderAll]

@[simp]
theorem preorderAll_cons (c : Node) (cs : List Node) :
    preorderAll (c :: cs) = c.preorder ++ preorderAll cs := by
  rw [preorderAll]

theorem mem_preorderAll {m : Node} {cs : List Node} :
    m ∈ preorderAll cs ↔ ∃ c ∈ cs, m ∈ c.preorder := by
  induction cs with
  | nil => simp
  | cons c cs ih => simp [ih]

end Node

end Handoff.Syntax
