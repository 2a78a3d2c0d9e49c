import Handoff.Proofs.Resolution.Writes
import Handoff.Proofs.Verdict.Tiers

/-!
# Closures located through a variable

A local variable stands for a function literal when its only write assigns the literal. Since all
writes with a value are recorded, no other statement or spec has a value for the variable. A range
or receive clause may still give it one, and the literal is located nevertheless.

## Main statement

* `CaptureGraph.sole_assignment`: a variable that locates a unit is given a value by one statement
  or spec, clauses apart.
-/

namespace Handoff

open Syntax Node

namespace CaptureGraph

variable {root : Node} {g : CaptureGraph} {u : FunctionUnit} {expr : Node} {i : Nat} {b : Binding}

/-- A variable that locates a unit does so through its only write, which is the only place in the
file that has a value for the variable. -/
theorem sole_assignment (hfile : root.IsFile) (hlocate : g.locate (.ofFile root) expr = some u)
    (hident : expr.bare.kind = .identifier)
    (hb : (Resolution.ofFile root).bindingOf expr.bare = some (i, b))
    (hlocal : b.kind.isLocal = true) :
    ∃ w value, b.writes = [w] ∧ w.value = some value ∧ g.unitOf value.bare = some u ∧
      ∀ n ∈ root.preorder, ∀ a ∈ n.assignments,
        (Resolution.ofFile root).useOf a.name = some i → a.site = w.site ∨ a.hasValue = false := by
  obtain ⟨f, hf, hu⟩ := Option.bind_eq_some_iff.1 hlocate
  cases Resolution.standsFor_of_functionOf hf with
  | literal hbare hkind =>
    rw [hbare, hkind] at hident
    cases hident
  | declared _ hb' hkind =>
    obtain ⟨rfl, rfl⟩ := Prod.mk.inj (Option.some.inj (hb.symm.trans hb'))
    rw [hkind] at hlocal
    cases hlocal
  | written _ hb' _ hwrites hvalue hbare _ =>
    obtain ⟨rfl, rfl⟩ := Prod.mk.inj (Option.some.inj (hb.symm.trans hb'))
    refine ⟨_, _, hwrites, hvalue, hbare ▸ hu, fun n hn a ha huse => ?_⟩
    cases hhas : a.hasValue with
    | false => exact .inr rfl
    | true =>
      obtain ⟨w, hw, hsite⟩ := Resolution.exists_write hfile hn ha hhas huse
        (Resolution.bindingOf_eq_some.1 hb).2 hlocal
      rw [hwrites, List.mem_singleton] at hw
      exact .inl (hw ▸ hsite.symm)

/-- Whether a local variable locates a unit, such that its number and its binding pass a test. -/
def locatesVariable (r : Resolution) (test : Nat → Binding → Bool) : Bool :=
  (build r).any fun g => r.root.preorder.any fun expr => expr.bare.kind == .identifier &&
    (g.locate r expr).isSome && (r.bindingOf expr.bare).any fun e =>
      e.2.kind.isLocal && test e.1 e.2

theorem exists_of_locatesVariable {r : Resolution} {test : Nat → Binding → Bool}
    (h : locatesVariable r test = true) :
    ∃ (g : CaptureGraph) (u : FunctionUnit) (expr : Node) (i : Nat) (b : Binding), g.locate r expr =
      some u ∧ expr.bare.kind = .identifier ∧ r.bindingOf expr.bare = some (i, b) ∧
        b.kind.isLocal = true ∧
      test i b = true := by
  simp only [locatesVariable, Option.any_eq_true, List.any_eq_true, Bool.and_eq_true, beq_iff_eq,
    Option.isSome_iff_exists] at h
  obtain ⟨g, -, expr, -, ⟨hident, u, hu⟩, ⟨i, b⟩, hb, hlocal, htest⟩ := h
  exact ⟨g, u, expr, i, b, hu, hident, hb, hlocal, htest⟩

/-- A variable starts as a function literal, and a range clause gives it other values. -/
def rangeTarget : String :=
  "package p\nimport \"context\"\nfunc run(ctx context.Context, fs []func()) \x7b\n" ++
    "\tf := func() \x7b _ = ctx \x7d\n\tfor _, f = range fs \x7b\n\t\tgo f()\n\t\x7d\n\x7d\n"

set_option maxRecDepth 4000 in
theorem sole_assignment_rangeTarget :
    ∃ (g : CaptureGraph) (u : FunctionUnit) (expr : Node) (i : Nat) (b : Binding) (w : Write),
      g.locate (.ofFile (parse rangeTarget)) expr = some u ∧ expr.bare.kind = .identifier ∧
      (Resolution.ofFile (parse rangeTarget)).bindingOf expr.bare = some (i, b) ∧
        b.kind.isLocal = true ∧
      b.writes = [w] ∧ ∀ n ∈ (parse rangeTarget).preorder, ∀ a ∈ n.assignments,
        (Resolution.ofFile (parse rangeTarget)).useOf a.name = some i → a.site = w.site ∨
          a.hasValue = false := by
  have hfound : locatesVariable (.ofFile (parse rangeTarget)) (fun _ _ => true) =
      true := by decide +kernel
  obtain ⟨g, u, expr, i, b, hlocate, hident, hb, hlocal, -⟩ := exists_of_locatesVariable hfound
  obtain ⟨w, value, hwrites, -, -, hsole⟩ :=
    sole_assignment (isFile_parse _) hlocate hident hb hlocal
  exact ⟨g, u, expr, i, b, w, hlocate, hident, hb, hlocal, hwrites, hsole⟩

set_option maxRecDepth 4000 in
/-- The clause gives the variable values, and the variable still locates the literal. -/
theorem located_rangeTarget :
    ∃ (g : CaptureGraph) (u : FunctionUnit) (expr : Node) (i : Nat) (b : Binding),
      g.locate (.ofFile (parse rangeTarget)) expr = some u ∧ expr.bare.kind = .identifier ∧
      (Resolution.ofFile (parse rangeTarget)).bindingOf expr.bare = some (i, b) ∧
        b.kind.isLocal = true ∧
      ∃ n ∈ (parse rangeTarget).preorder, n.kind = .rangeClause ∧ ∃ a ∈ n.assignments,
        (Resolution.ofFile (parse rangeTarget)).useOf a.name = some i ∧
          ∀ w ∈ b.writes, a.site ≠ w.site := by
  have hfound : locatesVariable (.ofFile (parse rangeTarget)) (fun i b =>
      (parse rangeTarget).preorder.any fun n => n.kind == .rangeClause && n.assignments.any fun a =>
        (Resolution.ofFile (parse rangeTarget)).useOf a.name == some i &&
          b.writes.all fun w => a.site.id != w.site.id) = true := by
    decide +kernel
  obtain ⟨g, u, expr, i, b, hlocate, hident, hb, hlocal, hclause⟩ :=
    exists_of_locatesVariable hfound
  simp only [List.any_eq_true, List.all_eq_true, Bool.and_eq_true, beq_iff_eq,
    bne_iff_ne] at hclause
  obtain ⟨n, hn, hkind, a, ha, huse, hsites⟩ := hclause
  exact ⟨g, u, expr, i, b, hlocate, hident, hb, hlocal, n, hn, hkind, a, ha, huse,
    fun w hw heq => hsites w hw (congrArg Node.id heq)⟩

end CaptureGraph

end Handoff
