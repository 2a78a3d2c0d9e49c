import Handoff.Closure.Call
import Handoff.Resolution.Basic

/-!
# Functions and what they capture

Every function of a file is a unit. A unit captures the variables that it uses and does not declare
itself: those of its own uses, and those that a unit nested in it captures from farther out. The
graph of a file lists its units in preorder; a file with syntax errors has none.
-/

namespace Handoff

open Syntax

structure FunctionUnit where
  function : Node
  /-- The position of the innermost unit around this one. -/
  parent : Option Nat
  /-- The bindings captured, by number. -/
  captures : List Nat
  /-- The calls of the body. -/
  calls : List CallSite

namespace FunctionUnit

mutual

/-- The identifiers below a node, those in nested functions left out. -/
def ownIdentifiers : Node → List Node
  | n@⟨label, children⟩ =>
    if label.kind.isFunction then []
    else if label.kind = .identifier then n :: ownIdentifiersAll children
    else ownIdentifiersAll children

def ownIdentifiersAll : List Node → List Node
  | [] => []
  | c :: cs => (if c.isPart then ownIdentifiers c else []) ++ ownIdentifiersAll cs

end

/-- Whether a binding comes from outside a function, the package apart. -/
def isCaptured (r : Resolution) (function : Node) (i : Nat) : Bool :=
  match r.bindings[i]? with
  | some b => !b.kind.isPackageLevel && !function.encloses b.decl
  | none => false

/-- The bindings behind a function's own identifiers. -/
def ownUses (r : Resolution) (function : Node) : List Nat :=
  (ownIdentifiersAll function.children).filterMap r.useOf

/-- The unit of a function at a position, given the units below it. -/
def ofFunction (r : Resolution) (parent : Option Nat) (position : Nat) (function : Node)
    (below : List FunctionUnit) : FunctionUnit :=
  let nested := (below.filter fun unit => unit.parent == some position).flatMap captures
  { function, parent
    captures := ((ownUses r function ++ nested).filter (isCaptured r function)).eraseDups
    calls := ((function.child? .body).map CallSite.ofBody).getD [] }

mutual

/-- The units at or below a node, outer ones first; the first of them gets the position `next`. -/
def collect (r : Resolution) (parent : Option Nat) (next : Nat) : Node → List FunctionUnit
  | n@⟨label, children⟩ =>
    if label.kind.isFunction then
      let below := collectAll r (some next) (next + 1) children
      ofFunction r parent next n below :: below
    else collectAll r parent next children

def collectAll (r : Resolution) (parent : Option Nat) (next : Nat) :
    List Node → List FunctionUnit
  | [] => []
  | c :: cs =>
    let found := collect r parent next c
    found ++ collectAll r parent (next + found.length) cs

end

end FunctionUnit

structure CaptureGraph where
  units : List FunctionUnit

namespace CaptureGraph

/-- The graph of a file without syntax errors. -/
def build (r : Resolution) : Option CaptureGraph :=
  if r.root.hasErrors then none else some ⟨FunctionUnit.collect r none 0 r.root⟩

/-- The unit of a function. -/
def unitOf (g : CaptureGraph) (function : Node) : Option FunctionUnit :=
  g.units.find? fun unit => unit.function.id == function.id

/-- The positions of the units directly inside the one at a position. -/
def childrenOf (g : CaptureGraph) (position : Nat) : List Nat :=
  (List.range g.units.length).filter fun i =>
    g.units[i]?.any fun unit => unit.parent == some position

end CaptureGraph

end Handoff
