import Handoff.Proofs.Closure.Captures
import Handoff.Proofs.Resolution.Lexical
import Handoff.Verdict.Precise

/-!
# What the capture graph answers

The graph of a file lists the functions of the file with the variables that are free in them. Its
verdict on a function is that the function uses a context exactly when the function declares one,
has a free variable that may hold one, or reads one from a field.

## Main definitions

* `Resolution.ReachesToken`: a function declares, captures or reads a context.

## Main statement

* `CaptureGraph.build_freeIn`: what the graph of a file without syntax errors holds and answers.
-/

namespace Handoff

open Syntax Node

variable {r : Resolution} {carriers : Carriers} {function : Node} {u : FunctionUnit}

/-- A function declares a named parameter that is a context, has a free variable that may hold one,
or has a selector expression in it whose type is a context. -/
def Resolution.ReachesToken (r : Resolution) (carriers : Carriers) (function : Node) : Prop :=
  (∃ list, function.child? .parameters = some list ∧ ∃ d ∈ list.parameters,
    (∃ t, r.imports.declaredType d = some t ∧ carriers.isToken t = true) ∧
      ∃ name ∈ d.inField .name, name.text ≠ "_") ∨
  (∃ i, r.FreeIn i function ∧ r.mayHoldToken carriers i = true) ∨
  ∃ n ∈ function.preorder, n.kind = .selectorExpression ∧
    ∃ t, r.typeOf n = some t ∧ carriers.isToken t = true

/-- A function declares a context by a named parameter, not a blank one, with the type of one. -/
theorem declaresToken_iff {imports : Imports} :
    declaresToken imports carriers function = true ↔
      ∃ list, function.child? .parameters = some list ∧ ∃ d ∈ list.parameters,
        (∃ t, imports.declaredType d = some t ∧ carriers.isToken t = true) ∧
          ∃ name ∈ d.inField .name, name.text ≠ "_" := by
  unfold declaresToken tokenParameters
  cases function.child? .parameters with
  | none => simp
  | some list =>
    simp only [List.any_flatMap, List.any_eq_true, Option.some.injEq, exists_eq_left']
    refine exists_congr fun d => and_congr_right fun _ => ?_
    rw [← Option.any_eq_true]
    split
    next htype =>
      have hnamed : ∀ name : Node,
          (if name.text = "_" then none else some name.text).isSome = true ↔ name.text ≠ "_" := by
        intro name
        split <;> simp [*]
      split
      next hnames => simp [hnames]
      next => simp [htype, hnamed]
    next htype => simp [htype]

namespace FunctionUnit

/-- The graph's answer on a unit. -/
theorem usesToken_iff (wf : r.root.WellFormed) (hu : u ∈ collect r none 0 r.root) :
    u.usesToken r carriers = true ↔ r.ReachesToken carriers u.function := by
  simp only [usesToken, Resolution.ReachesToken, Bool.or_eq_true, declaresToken_iff, or_assoc,
    List.any_eq_true, mem_captures wf hu, Resolution.isTokenField, Bool.and_eq_true, beq_iff_eq,
    Option.any_eq_true]

/-- Every unit's parent is the innermost function strictly around it. -/
theorem parent_eq (distinct : r.root.Distinct) (hu : u ∈ collect r none 0 r.root) :
    (u.parent.map fun p => (collect r none 0 r.root)[p]?.map FunctionUnit.function) =
      ((r.root.ancestors u.function).find? (·.kind.isFunction)).map some := by
  refine points_parent distinct (self_mem_preorder _) ?_ ?_ hu
  · exact List.prefix_rfl
  · simp [Points, distinct.ancestors_self]

end FunctionUnit

namespace CaptureGraph

variable {g : CaptureGraph}

theorem mem_childrenOf {j k : Nat} :
    j ∈ g.childrenOf k ↔ ∃ v, g.units[j]? = some v ∧ v.parent = some k := by
  simp only [childrenOf, List.mem_filter, List.mem_range, Option.any_eq_true, beq_iff_eq]
  refine ⟨And.right, fun ⟨v, hv, hp⟩ => ⟨?_, v, hv, hp⟩⟩
  exact (List.getElem?_eq_some_iff.1 hv).1

theorem mem_of_locate {expr : Node} (h : g.locate r expr = some u) : u ∈ g.units := by
  obtain ⟨f, -, hf⟩ := Option.bind_eq_some_iff.1 h
  exact List.mem_of_find?_eq_some hf

/-- The graph's verdict on a located closure. -/
theorem traceCapture_of_locate {expr : Node} (h : g.locate r expr = some u) :
    traceCapture (some g) r carriers expr =
      if u.usesToken r carriers then .satisfied else .unsatisfied := by
  simp only [traceCapture, Option.bind_some, h]

/-- The graph of a file without syntax errors: its units are the functions in preorder, the captures
of a unit are its free variables, its parent is the innermost function strictly around it, and
children are those with that parent. The verdict on a located closure is that it uses a context
exactly when its function declares, captures or reads one. -/
theorem build_freeIn {root : Node} (wf : root.WellFormed) (h : root.hasErrors = false) :
    ∃ g, build (.ofFile root) = some g ∧
      g.units.map FunctionUnit.function = root.preorder.filter (·.kind.isFunction) ∧
      (∀ u ∈ g.units, u.captures.Nodup ∧
        (∀ i, i ∈ u.captures ↔ (Resolution.ofFile root).FreeIn i u.function) ∧
        (u.parent.map fun p => g.units[p]?.map FunctionUnit.function) =
          ((root.ancestors u.function).find? (·.kind.isFunction)).map some) ∧
      (∀ j k, j ∈ g.childrenOf k ↔ ∃ v, g.units[j]? = some v ∧ v.parent = some k) ∧
      ∀ carriers expr u, g.locate (.ofFile root) expr = some u →
        (traceCapture (some g) (.ofFile root) carriers expr = .satisfied ↔
          (Resolution.ofFile root).ReachesToken carriers u.function) ∧
        (¬ (Resolution.ofFile root).ReachesToken carriers u.function →
          traceCapture (some g) (.ofFile root) carriers expr = .unsatisfied) := by
  have hroot := Resolution.root_ofFile wf
  generalize Resolution.ofFile root = r at hroot ⊢
  rw [← hroot] at h wf ⊢
  refine ⟨⟨FunctionUnit.collect r none 0 r.root⟩, by simp [build, h],
    FunctionUnit.collect_map_function .., fun u hu => ⟨FunctionUnit.nodup_captures hu, fun i =>
      FunctionUnit.mem_captures wf hu, FunctionUnit.parent_eq wf.distinct hu⟩,
        fun j k => mem_childrenOf,
    fun carriers expr u hu => ?_⟩
  rw [traceCapture_of_locate hu, ← FunctionUnit.usesToken_iff wf (mem_of_locate hu)]
  split <;> simp [*]

def nestedClosures : String :=
  "package p\nimport \"context\"\nfunc f(ctx context.Context, n int) \x7b\n\tgo func() \x7b\n" ++
    "\t\tm := n\n\t\tfunc() \x7b use(ctx, n, m) \x7d()\n\t\x7d()\n\x7d\n"

theorem build_freeIn_nestedClosures :
    (parse nestedClosures).hasErrors = false ∧
      ∃ g expr u, build (.ofFile (parse nestedClosures)) = some g ∧
        g.units.map (fun u => (u.parent, u.captures)) =
          [(none, []), (some 0, [2, 1]), (some 1, [1, 2, 3])] ∧
        g.locate (.ofFile (parse nestedClosures)) expr = some u ∧ u ∈ g.units ∧
        traceCapture (some g) (.ofFile (parse nestedClosures)) [] expr = .satisfied ∧
        (Resolution.ofFile (parse nestedClosures)).ReachesToken [] u.function ∧
        ∀ i, i ∈ u.captures ↔ (Resolution.ofFile (parse nestedClosures)).FreeIn i u.function := by
  have herrors : (parse nestedClosures).hasErrors = false := by decide +kernel
  obtain ⟨g, hg, -, hunits, -, htrace⟩ := build_freeIn (parse_wellFormed nestedClosures) herrors
  have hrun : ((build (.ofFile (parse nestedClosures))).bind fun g =>
      ((parse nestedClosures).preorder.find? (·.kind == .funcLiteral)).bind fun expr =>
        (g.locate (.ofFile (parse nestedClosures)) expr).map fun _ =>
          (g.units.map fun u => (u.parent, u.captures),
            traceCapture (some g) (.ofFile (parse nestedClosures)) [] expr)) =
      some ([(none, []), (some 0, [2, 1]), (some 1, [1, 2, 3])], .satisfied) := by
    decide +kernel
  rw [hg, Option.bind_some, Option.bind_eq_some_iff] at hrun
  obtain ⟨expr, -, hrun⟩ := hrun
  obtain ⟨u, hu, hrun⟩ := Option.map_eq_some_iff.1 hrun
  obtain ⟨hcaptures, hsatisfied⟩ := Prod.mk.inj hrun
  have hmem := mem_of_locate hu
  exact ⟨herrors, g, expr, u, hg, hcaptures, hu, hmem, hsatisfied,
    (htrace [] expr u hu).1.1 hsatisfied, (hunits u hmem).2.1⟩

end CaptureGraph

end Handoff
