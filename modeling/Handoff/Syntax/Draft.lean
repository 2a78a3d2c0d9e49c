import Handoff.Syntax.Node

/-!
# Trees under construction

The grammar builds a tree of drafts: nodes without a number and without text. Comments are then put
in, each as high as possible, and `Draft.finish` numbers the nodes in preorder and gives each its
text. The span of a finished node is widened to those of its children, so a child always lies in its
parent.
-/

namespace Handoff.Syntax

structure Draft where
  kind : Kind
  field : Option Field
  span : Span
  children : List Draft

namespace Draft

def leaf (kind : Kind) (span : Span) : Draft :=
  ⟨kind, none, span, []⟩

/-- The span from the first to the last of some drafts. -/
def cover : List Draft → Span
  | [] => ⟨.origin, .origin⟩
  | d :: ds => ds.foldl (fun span e => span.hull e.span) d.span

/-- A node over its children, which stand in source order. -/
def branch (kind : Kind) (children : List Draft) : Draft :=
  ⟨kind, none, cover children, children⟩

/-- The draft as a field of the node it will stand in. -/
def into (field : Field) (d : Draft) : Draft :=
  { d with field := some field }

/-- Whether a comment stands between two tokens of a draft. -/
def surrounds (d comment : Draft) : Bool :=
  d.span.start.byte < comment.span.start.byte && comment.span.stop.byte < d.span.stop.byte

mutual

/-- Puts a comment below a draft that surrounds it. -/
def insertInto (comment : Draft) : Draft → Draft
  | ⟨kind, field, span, children⟩ => ⟨kind, field, span, insertAmong comment children⟩

/-- Puts a comment into the child that surrounds it, else between children. -/
def insertAmong (comment : Draft) : List Draft → List Draft
  | [] => [comment]
  | d :: ds =>
    if surrounds d comment then insertInto comment d :: ds
    else if comment.span.start.byte < d.span.start.byte then comment :: d :: ds
    else d :: insertAmong comment ds

end

/-- The part of a text that a span covers. -/
def textAt (source : String) (span : Span) : String :=
  String.Pos.Raw.extract source ⟨span.start.byte⟩ ⟨span.stop.byte⟩

mutual

/-- Numbers the nodes in preorder, from `next` on; the second result is the next free number. -/
def finish (source : String) (next : Nat) : Draft → Node × Nat
  | ⟨kind, field, span, children⟩ =>
    let (nodes, after) := finishAll source (next + 1) children
    let span := nodes.foldl (fun span n => span.hull n.span) span
    (⟨⟨next, kind, field, span, textAt source span⟩, nodes⟩, after)

def finishAll (source : String) (next : Nat) : List Draft → List Node × Nat
  | [] => ([], next)
  | d :: ds =>
    let (node, after) := finish source next d
    let (nodes, last) := finishAll source after ds
    (node :: nodes, last)

end

end Draft

end Handoff.Syntax
