/-!
# Positions and spans

A position counts bytes of UTF-8 from the start of the text and, for people, rows and byte columns,
each from zero. A row ends at a line feed. A span runs from its start up to, not including, its
stop.
-/

namespace Handoff.Syntax

structure Position where
  byte : Nat
  row : Nat
  column : Nat
deriving DecidableEq, Repr

namespace Position

def origin : Position := ⟨0, 0, 0⟩

/-- The position after one character. -/
def advance (p : Position) (c : Char) : Position :=
  if c = '\n' then ⟨p.byte + 1, p.row + 1, 0⟩
  else ⟨p.byte + c.utf8Size, p.row, p.column + c.utf8Size⟩

/-- The position after a text. -/
def advanceAll (p : Position) (cs : List Char) : Position :=
  cs.foldl advance p

end Position

structure Span where
  start : Position
  stop : Position
deriving DecidableEq, Repr

namespace Span

/-- Whether one span lies in another, ends included. -/
def contains (outer inner : Span) : Bool :=
  outer.start.byte ≤ inner.start.byte && inner.stop.byte ≤ outer.stop.byte

/-- The least span over two. -/
def hull (a b : Span) : Span :=
  ⟨if b.start.byte < a.start.byte then b.start else a.start,
   if a.stop.byte < b.stop.byte then b.stop else a.stop⟩

@[simp]
theorem contains_refl (s : Span) : s.contains s = true := by
  simp [contains]

theorem contains_trans {a b c : Span} (h : a.contains b = true) (h' : b.contains c = true) :
    a.contains c = true := by
  simp [contains] at *
  omega

theorem hull_contains_left (a b : Span) : (hull a b).contains a = true := by
  grind [contains, hull]

theorem hull_contains_right (a b : Span) : (hull a b).contains b = true := by
  grind [contains, hull]

end Span

end Handoff.Syntax
