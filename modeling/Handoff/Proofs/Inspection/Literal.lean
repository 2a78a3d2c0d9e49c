import Handoff.Proofs.Inspection.Subject
import Handoff.Proofs.Resolution.Lexical
import Handoff.Proofs.Verdict.Literal

/-!
# No finding about a literal that uses a context

The report on a file has no propagation finding about a function literal that takes a context from
its surroundings, with or without the capture graph. What is condemned is never such a literal, and
the span of a finding tells what it is about.

## Main definitions

* `Inspection.ofFile`: the inspection that a report is made from.
-/

namespace Handoff

open Syntax Node

namespace Inspection

variable {i : Inspection} {subject expr : Node}

/-- A closure that the graph does not condemn, and that passes whatever it is searched for. -/
theorem not_condemns_of_search (htrace : i.trace expr ≠ .unsatisfied)
    (hsearch : ∀ goal site, Search.search i.resolution
      (captureTest i.resolution i.settings.carriers) Search.maxDepth goal expr site [] = true) :
        ¬ i.Condemns subject expr := by
  rintro (h | ⟨site, callback, call, rfl, h⟩)
  · unfold goUsesToken at h
    split at h
    next => cases h
    next hverdict => exact htrace hverdict
    next => cases (hsearch .closure subject).symm.trans h
  · unfold callbackUsesToken at h
    split at h
    next => cases h
    next hverdict =>
      split at hverdict
      · exact htrace hverdict
      · cases hverdict
    next => cases (hsearch _ call).symm.trans h

theorem not_condemns_of_variadicArgument (h : expr.kind = .variadicArgument) :
    ¬ i.Condemns subject expr := by
  refine not_condemns_of_search ?_ fun goal site => Search.search_variadicArgument goal h
  have hfunction : i.resolution.functionOf expr = none := by
    simp [Resolution.functionOf, bare_eq_self, h]
  simp [trace, traceCapture, CaptureGraph.locate, hfunction]

/-- The graph of an inspection, when there is one, is that of the file. -/
def HasOwnGraph (i : Inspection) : Prop :=
  i.graph = none ∨ i.graph = CaptureGraph.build i.resolution

theorem hasOwnGraph_ofTree (settings : Settings) (root : Node) (marks : List Nat) :
    (ofTree settings root marks).HasOwnGraph := by
  unfold HasOwnGraph ofTree
  cases settings.precise
  · exact .inl rfl
  · exact .inr rfl

theorem trace_of_takesToken (wf : i.resolution.root.WellFormed) (hgraph : i.HasOwnGraph)
    (hexpr : expr ∈ i.resolution.root.preorder) (hkind : expr.bare.kind = .funcLiteral)
    (h : i.resolution.TakesToken i.settings.carriers expr.bare) : i.trace expr ≠ .unsatisfied := by
  unfold trace
  cases hg : i.graph with
  | none => simp [traceCapture]
  | some g =>
    obtain hnone | hbuild := hgraph
    · cases hnone.symm.trans hg
    · simp [traceCapture_of_takesToken wf (hbuild.symm.trans hg) hexpr hkind h]

theorem not_condemns_of_takesToken (wf : i.resolution.root.WellFormed) (hgraph : i.HasOwnGraph)
    (hexpr : expr ∈ i.resolution.root.preorder) (hkind : expr.bare.kind = .funcLiteral)
    (h : i.resolution.TakesToken i.settings.carriers expr.bare) : ¬ i.Condemns subject expr := by
  have hbare := wf.of_mem (preorder_trans hexpr (bare_mem_preorder expr))
  exact not_condemns_of_search (trace_of_takesToken wf hgraph hexpr hkind h)
    fun goal site => Search.search_of_takesToken hbare hkind h goal

/-- A subject whose closure mentions a variable covers some text. -/
theorem Spawns.start_lt_stop {carriers : Carriers} (hspawns : i.Spawns subject expr)
    (wf : i.resolution.root.WellFormed) (h : i.resolution.TakesToken carriers expr.bare) :
    subject.start < subject.stop := by
  obtain ⟨body, hbody, n, hn, hident, -⟩ := h
  have hinner : n ∈ expr.bare.inner := mem_inner.2 ⟨body, (mem_children_of_child? hbody).1, hn⟩
  have hmem : n ∈ subject.preorder := preorder_trans (hspawns.expr_mem wf)
    (preorder_trans (bare_mem_preorder expr) (preorder_of_inner hinner))
  have hsubject := (hspawns.isSubject wf).1
  have hplace := wf.start_le hsubject hmem
  have hnonempty := wf.nonempty n (preorder_trans hsubject hmem) (by rw [hident]; rfl)
  omega

/-- No propagation finding shows the span of a subject whose closure is a function literal that
takes a context. -/
theorem span_ne_of_takesToken {f : Finding} (wf : i.resolution.root.WellFormed)
    (hgraph : i.HasOwnGraph) (hspawns : i.Spawns subject expr)
    (hkind : expr.bare.kind = .funcLiteral)
    (h : i.resolution.TakesToken i.settings.carriers expr.bare) (hf : f ∈ i.findings)
    (hpropagation : f.checker.kind = .propagation) : f.span ≠ subject.span := by
  intro hspan
  obtain ⟨found, closure, hfound, hfspan, hcondemned⟩ :=
    exists_spawns_of_mem_findings hf hpropagation
  have hspread :=
    hspawns.kind_ne_variadicArgument wf (kind_ne_of_bare (by simp [hkind]) (by decide))
  have hfoundSpread := hfound.kind_ne_variadicArgument wf fun hvariadic =>
    not_condemns_of_variadicArgument hvariadic hcondemned
  obtain rfl := IsSubject.eq_of_span wf (hspawns.isSubject wf) (hfound.isSubject wf) hspread
    hfoundSpread (hspan.symm.trans hfspan) (hspawns.start_lt_stop wf h)
  obtain rfl := hspawns.expr_eq hfound wf
  have hexpr := preorder_trans (hspawns.isSubject wf).1 (hspawns.expr_mem wf)
  exact not_condemns_of_takesToken wf hgraph hexpr hkind h hcondemned

/-- The inspection that the report on a file is made from. -/
def ofFile (settings : Settings) (root : Node) : Inspection :=
  ofTree settings root (Ledger.ofTree root).marks

/-- No false alarm: in any file and under any settings, a `go` statement or a callback in a token
scope whose closure, without parentheses, is a function literal that takes a context has no
propagation finding. -/
theorem check_span_ne_of_takesToken (settings : Settings) {root : Node} (wf : root.WellFormed)
    (hspawns : (ofFile settings root).Spawns subject expr) (hkind : expr.bare.kind = .funcLiteral)
    (h : (ofFile settings root).resolution.TakesToken settings.carriers expr.bare) :
    ∀ f ∈ checkFile settings root, f.checker.kind = .propagation → f.span ≠ subject.span := by
  intro f hf hpropagation
  have hroot : (ofFile settings root).resolution.root = root := Resolution.root_ofFile wf
  have wf' : (ofFile settings root).resolution.root.WellFormed := by rwa [hroot]
  have hproper : f.checker ≠ .unusedIgnore := fun hunused => by
    rw [hunused] at hpropagation
    cases hpropagation
  have hfindings : f ∈ (ofFile settings root).findings := mem_findings_of_mem_report hf hproper
  exact span_ne_of_takesToken wf' (hasOwnGraph_ofTree ..) hspawns hkind h hfindings hpropagation

/-- Two goroutines: one uses its context, behind parentheses and after a closure that does not; the
other does nothing. -/
def twoGoroutines : String :=
  "package p\nimport \"context\"\nfunc run(ctx context.Context) \x7b\n" ++
    "\tgo (func() \x7b f := func() \x7b\x7d; f(); use(ctx) \x7d)()\n\tgo func() \x7b\x7d()\n\x7d\n"

set_option maxRecDepth 4000 in
theorem check_span_ne_of_takesToken_twoGoroutines :
    (∃ subject expr, (ofFile .standard (parse twoGoroutines)).Spawns subject expr ∧
      expr.bare.kind = .funcLiteral ∧
      (ofFile .standard (parse twoGoroutines)).resolution.TakesToken Settings.standard.carriers
        expr.bare ∧
      ∀ f ∈ check .standard twoGoroutines, f.checker.kind = .propagation → f.span ≠ subject.span) ∧
    (check .standard twoGoroutines).map Finding.checker = [.goroutine] := by
  refine ⟨?_, by decide +kernel⟩
  have hany : (ofFile .standard (parse twoGoroutines)).resolution.root.preorder.any (fun n =>
      n.kind == .goStatement &&
        (TokenScope.around (ofFile .standard (parse twoGoroutines)).resolution.root
          (ofFile .standard (parse twoGoroutines)).resolution.imports
          Settings.standard.carriers n).isSome &&
        (spawnedCall n).any fun p => p.2.bare.kind == .funcLiteral &&
          (ofFile .standard (parse twoGoroutines)).resolution.takesToken Settings.standard.carriers
            p.2.bare) = true := by
    decide +kernel
  simp only [List.any_eq_true, Option.any_eq_true, Bool.and_eq_true, beq_iff_eq] at hany
  obtain ⟨statement, hmem, ⟨hgo, hscope⟩, ⟨call, callee⟩, hspawned, hkind, htakes⟩ := hany
  have hspawns : (ofFile .standard (parse twoGoroutines)).Spawns statement callee :=
    .goStatement hmem hgo hscope hspawned
  have hcallee := preorder_trans hmem (preorder_of_inner (inner_of_spawnedCall hspawned))
  have wf := parse_wellFormed twoGoroutines
  have hroot : (ofFile .standard (parse twoGoroutines)).resolution.root = parse twoGoroutines :=
    Resolution.root_ofFile wf
  have hdistinct : (ofFile .standard (parse twoGoroutines)).resolution.root.Distinct := by
    rw [hroot]
    exact wf.distinct
  have htakes := (Resolution.takesToken_iff (hdistinct.of_mem
    (preorder_trans hcallee (bare_mem_preorder callee)))).1 htakes
  exact ⟨statement, callee, hspawns, hkind, htakes,
    check_span_ne_of_takesToken _ wf hspawns hkind htakes⟩

end Inspection

end Handoff
