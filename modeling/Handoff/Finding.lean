import Handoff.Checker.Basic
import Handoff.Sort
import Handoff.Syntax.Position

/-!
# Findings

A finding is what a checker has to say about a span. Reports list findings by the position at which
they start and then by the name of the checker.
-/

namespace Handoff

open Syntax

structure Finding where
  checker : Checker
  span : Span
  message : String
deriving DecidableEq, Repr

namespace Finding

/-- The line of a finding, counted from one. -/
def line (f : Finding) : Nat :=
  f.span.start.row + 1

/-- The column of a finding in bytes, counted from one. -/
def column (f : Finding) : Nat :=
  f.span.start.column + 1

/-- Whether a finding may stand before another in a report. -/
def precedes (a b : Finding) : Bool :=
  a.line < b.line || (a.line == b.line &&
    (a.column < b.column || (a.column == b.column && a.checker.name ≤ b.checker.name)))

theorem precedes_total (a b : Finding) : a.precedes b = true ∨ b.precedes a = true := by
  have := String.le_total a.checker.name b.checker.name
  simp only [precedes]
  grind

theorem precedes_trans {a b c : Finding} (h : a.precedes b = true) (h' : b.precedes c = true) :
    a.precedes c = true := by
  have := @String.le_trans a.checker.name b.checker.name c.checker.name
  simp only [precedes] at *
  grind

end Finding

/-- Findings in the order of a report. -/
def inReportOrder (findings : List Finding) : List Finding :=
  sorted Finding.precedes findings

theorem filter_inReportOrder (p : Finding → Bool) (findings : List Finding) :
    (inReportOrder findings).filter p = inReportOrder (findings.filter p) :=
  filter_sorted Finding.precedes_total (fun _ _ _ => Finding.precedes_trans) p findings

@[simp]
theorem mem_inReportOrder {f : Finding} {findings : List Finding} :
    f ∈ inReportOrder findings ↔ f ∈ findings :=
  mem_sorted

end Handoff
