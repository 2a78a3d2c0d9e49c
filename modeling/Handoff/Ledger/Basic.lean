import Handoff.Checker.Set
import Handoff.Finding
import Handoff.Ledger.Remark
import Handoff.Syntax.Node

/-!
# The ledger of ignore directives

A directive covers findings on its own line and on the next. The ledger of a file holds its
directives, at most one a line, and remembers for each which checkers it silenced. `Ledger.suppress`
takes findings through the ledger in order.
-/

namespace Handoff

open Syntax

structure Directive where
  line : Nat
  span : Span
  /-- The checkers named, empty names left out; without a list it covers every checker. -/
  checkers : Option (List String)
  /-- The list has an empty name. -/
  malformed : Bool
  /-- The checkers that it silenced. -/
  used : CheckerSet

namespace Directive

def covers (d : Directive) (c : Checker) : Bool :=
  match d.checkers with
  | none => !d.malformed
  | some names => names.contains c.name

/-- The directive after it silenced a checker. -/
def use (c : Checker) (d : Directive) : Directive :=
  { d with used := d.used.insert c }

def isUsed (d : Directive) : Bool :=
  !d.used.toList.isEmpty

/-- The directive that a comment is. -/
def ofComment (n : Node) : Option Directive :=
  match Remark.ofComment n.text with
  | some (.ignore checkers malformed) => some ⟨n.line, n.span, checkers, malformed, .none⟩
  | _ => none

end Directive

structure Ledger where
  directives : List Directive
  /-- The lines with a mark for a spawner, in order. -/
  marks : List Nat
  /-- A line has at most one directive. -/
  distinct : directives.Pairwise (·.line ≠ ·.line)

namespace Ledger

def empty : Ledger := ⟨[], [], .nil⟩

/-- Adds a directive unless its line has one already. -/
def add (l : Ledger) (d : Directive) : Ledger :=
  if h : l.directives.any (·.line == d.line) then l
  else
    { l with
      directives := l.directives ++ [d]
      distinct := by
        refine List.pairwise_append.2 ⟨l.distinct, List.pairwise_singleton .., ?_⟩
        simpa using h }

/-- The ledger of a file. -/
def ofTree (root : Node) : Ledger :=
  let comments := root.preorder.filter (·.kind == .comment)
  let marked := comments.filter fun n => Remark.ofComment n.text == some .spawnerMark
  let marks := (marked.map Node.line).eraseDups
  (comments.filterMap Directive.ofComment).foldl add { empty with marks }

/-- The directive on a line. -/
def onLine (l : Ledger) (line : Nat) : Option Directive :=
  l.directives.find? (·.line == line)

/-- The line of the directive that covers a checker on a line: the line itself, or the one above. -/
def coveringLine (l : Ledger) (line : Nat) (c : Checker) : Option Nat :=
  [line, line - 1].find? fun k => (l.onLine k).any (·.covers c)

/-- The ledger after the directive on a line silenced a checker. -/
def use (l : Ledger) (line : Nat) (c : Checker) : Ledger :=
  { l with
    directives := l.directives.map fun d => if d.line = line then d.use c else d
    distinct := by
      refine List.pairwise_map.2 (l.distinct.imp fun {a b} h => ?_)
      split <;> split <;> exact h }

/-- Whether a checker is silenced on a line, and the ledger that remembers it. -/
def silence (l : Ledger) (line : Nat) (c : Checker) : Bool × Ledger :=
  match l.coveringLine line c with
  | some k => (true, l.use k c)
  | none => (false, l)

/-- The findings that no directive silences, and the ledger after all of them. -/
def suppress (l : Ledger) : List Finding → List Finding × Ledger
  | [] => ([], l)
  | f :: fs =>
    match l.silence f.line f.checker with
    | (true, l') => l'.suppress fs
    | (false, l') =>
      let (kept, final) := l'.suppress fs
      (f :: kept, final)

end Ledger

end Handoff
