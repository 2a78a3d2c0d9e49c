import Handoff.Proofs.Syntax.Walk
import Handoff.Proofs.Verdict.Trace
import Handoff.Verdict.Search

/-!
# Function literals that use a context

A function literal may mention a context of its surroundings in its own statements. Both ways to a
verdict see it: the capture graph has the variable among the captures of the literal, and the search
finds the identifier in the body. So the verdict on the literal is the same with and without a
graph.

## Main definitions

* `Resolution.TakesToken`: a function literal mentions a context from outside in its own statements.
-/

namespace Handoff

open Syntax Node

variable {r : Resolution} {carriers : Carriers} {node literal expr site : Node}

namespace Resolution

/-- In the body of a function literal, outside the function literals nested in it, stands an
identifier for a variable that is declared outside the literal, not in the package, and whose type
is a context. -/
def TakesToken (r : Resolution) (carriers : Carriers) (literal : Node) : Prop :=
  ∃ body, literal.child? .body = some body ∧ ∃ n ∈ body.preorder, n.kind = .identifier ∧
    (∀ nested ∈ body.preorder, nested.kind = .funcLiteral → n ∉ nested.preorder) ∧
    ∃ i b t, r.bindingOf n = some (i, b) ∧ b.kind.isPackageLevel = false ∧
      literal.encloses b.decl = false ∧ b.type = some t ∧ carriers.isToken t = true

/-- `TakesToken`, computed: nodes are told apart by their numbers. -/
def takesToken (r : Resolution) (carriers : Carriers) (literal : Node) : Bool :=
  (literal.child? .body).any fun body => body.preorder.any fun n =>
    n.kind == .identifier &&
      body.preorder.all (fun nested =>
        nested.kind != .funcLiteral || nested.preorder.all fun m => m.id != n.id) &&
      (r.bindingOf n).any fun (_, b) =>
        !b.kind.isPackageLevel && !literal.encloses b.decl && b.type.any carriers.isToken

/-- The computed test decides whether a literal takes a context. -/
theorem takesToken_iff (h : literal.Distinct) :
    r.takesToken carriers literal = true ↔ r.TakesToken carriers literal := by
  have houtside : ∀ body, literal.child? .body = some body → ∀ n ∈ body.preorder,
      ∀ nested ∈ body.preorder, (n ∉ nested.preorder ↔ ∀ m ∈ nested.preorder, m.id ≠ n.id) := by
    intro body hbody n hn nested hnested
    refine ⟨fun hout m hm hid => hout ?_, fun hne hin => hne n hin rfl⟩
    have hdistinct := h.child (mem_children_of_child? hbody).1
    rwa [← hdistinct.eq_of_id (preorder_trans hnested hm) hn hid]
  unfold takesToken TakesToken
  simp only [Option.any_eq_true, List.any_eq_true, List.all_eq_true, Bool.and_eq_true,
    Bool.or_eq_true, beq_iff_eq, bne_iff_ne, Bool.not_eq_true', Prod.exists]
  refine exists_congr fun body => and_congr_right fun hbody => exists_congr fun n => ?_
  rw [and_assoc]
  refine and_congr_right fun hn => and_congr_right fun _ =>
    and_congr (forall₂_congr fun nested hnested => ?_) ?_
  · rw [houtside body hbody n hn nested hnested, ← imp_iff_not_or]
  · simp only [and_assoc, exists_and_left]

/-- Following copies never leaves a binding behind. -/
theorem subset_reachedBy (r : Resolution) (n : Nat) (frontier reached : List Nat) :
    reached ⊆ r.reachedBy n frontier reached := by
  induction n generalizing frontier reached with
  | zero => exact List.Subset.refl _
  | succ n ih =>
    rw [reachedBy]
    split
    · exact List.Subset.refl _
    · exact fun i hi => ih _ _ (List.mem_append_left _ hi)

theorem mayHoldToken_of_type {i : Nat} {b : Binding} {t : TypeName} (hb : r.bindings[i]? = some b)
    (htype : b.type = some t) (htoken : carriers.isToken t = true) :
    r.mayHoldToken carriers i = true := by
  refine List.any_eq_true.2 ⟨i, subset_reachedBy r _ _ _ (List.mem_singleton_self i), ?_⟩
  simp [isSource, hb, htype, htoken]

end Resolution

/-! ### The search -/

theorem mentionsAmong_eq_any {intoLiterals : Bool} {cs : List Node} :
    mentionsAmong r carriers node intoLiterals cs =
      cs.any fun c => c.isPart && mentionsBelow r carriers node intoLiterals c := by
  induction cs with
  | nil => rw [mentionsAmong, List.any_nil]
  | cons c cs ih => rw [mentionsAmong, ih, List.any_cons]

/-- A node names a context, read inside `node`, or reads one from a field. -/
def IsMention (r : Resolution) (carriers : Carriers) (node m : Node) : Prop :=
  (m.kind = .identifier ∧ isTokenName r carriers node m = true) ∨ r.isTokenField carriers m = true

theorem IsMention.kind {m : Node} (h : IsMention r carriers node m) :
    m.kind = .identifier ∨ m.kind = .selectorExpression := by
  obtain ⟨hkind, -⟩ | hfield := h
  · exact .inl hkind
  · exact .inr (eq_of_beq (Bool.and_eq_true_iff.1 hfield).1)

theorem IsMention.isPart {m : Node} (h : IsMention r carriers node m) : m.isPart = true := by
  obtain hkind | hkind := h.kind <;> simp [Node.isPart, hkind, Kind.isNamed]

theorem mentionsBelow_eq (n : Node) :
    mentionsBelow r carriers node false n =
      if n.kind = .identifier then isTokenName r carriers node n
      else r.isTokenField carriers n ||
        ((n.kind != .funcLiteral || false || n.id == node.id) &&
          mentionsAmong r carriers node false n.children) := by
  cases n
  rw [mentionsBelow]
  rfl

/-- What stands in a node, outside the function literals in it, is found. -/
theorem mentionsBelow_of_isMention {n m : Node} (wf : n.WellFormed) (hm : m ∈ n.preorder)
    (hmention : IsMention r carriers node m)
    (hout : ∀ nested ∈ n.preorder, nested.kind = .funcLiteral → m ∉ nested.preorder) :
    mentionsBelow r carriers node false n = true := by
  induction n using childrenInduction with
  | step n ih =>
    rw [mentionsBelow_eq]
    have hkind := hmention.kind
    obtain rfl | hin := mem_preorder.1 hm
    · obtain ⟨hident, hname⟩ | hfield := hmention
      · rw [if_pos hident, hname]
      · have hident : m.kind ≠ .identifier :=
          fun h => by simp [Resolution.isTokenField, h] at hfield
        rw [if_neg hident, hfield, Bool.true_or]
    · have hleaf : ¬ n.kind.isLeaf = true := fun hleaf => by
        simp [wf.comment_of_inner hleaf hin] at hkind
      have hident : n.kind ≠ .identifier := fun h => hleaf (by rw [h]; rfl)
      have hliteral : n.kind ≠ .funcLiteral := fun h => hout n (self_mem_preorder n) h hm
      obtain ⟨c, hc, hmc⟩ := mem_inner.1 hin
      have hbelow := ih c hc (wf.child hc) hmc fun nested hnested =>
        hout nested (preorder_of_inner (mem_inner.2 ⟨c, hc, hnested⟩))
      have hpart := (wf.child hc).isPart_of_mem hmc hmention.isPart
      have hamong : mentionsAmong r carriers node false n.children = true := by
        rw [mentionsAmong_eq_any]
        exact List.any_eq_true.2 ⟨c, hc, by rw [hpart, hbelow]; rfl⟩
      simp [hident, hliteral, hamong]

/-- The search passes a function literal that takes a context. -/
theorem captureTest_of_takesToken (wf : literal.WellFormed) (h : r.TakesToken carriers literal) :
    (captureTest r carriers).function literal = true := by
  obtain ⟨body, hbody, n, hn, hkind, hout, i, b, t, hb, -, -, htype, htoken⟩ := h
  have hname : isTokenName r carriers body n = true := by simp [isTokenName, hb, htype, htoken]
  have hmention := mentionsBelow_of_isMention
    (wf.child (List.mem_of_find?_eq_some hbody)) hn (.inl ⟨hkind, hname⟩) hout
  simp [captureTest, hbody, mentionsToken, hmention]

namespace Search

variable {V : Type} [Verdict V] {test : ClosureTest V} {visited : List Nat} {depth : Nat}

/-- A function literal is tested; it is no task and no collection, which are assumed to pass. -/
theorem search_literal (goal : Goal) (h : expr.bare.kind = .funcLiteral) :
    search r test (depth + 1) goal expr site visited =
      if goal = .closure then test.function expr.bare else Verdict.assumed := by
  cases goal <;> simp [search, closureStep, taskStep, collectionStep, h]

/-- Whatever is searched for, a function literal that takes a context passes. -/
theorem search_of_takesToken (wf : expr.bare.WellFormed) (hkind : expr.bare.kind = .funcLiteral)
    (h : r.TakesToken carriers expr.bare) (goal : Goal) :
    search r (captureTest r carriers) (depth + 1) goal expr site visited = true := by
  rw [search_literal goal hkind]
  split
  · exact captureTest_of_takesToken wf h
  · rfl

/-- A spread argument in the place of a single one is not followed. -/
theorem search_variadicArgument (goal : Goal) (h : expr.kind = .variadicArgument) :
    search r test (depth + 1) goal expr site visited = Verdict.assumed := by
  have hbare : expr.bare = expr := bare_eq_self (by simp [h])
  cases goal <;> simp [search, closureStep, taskStep, collectionStep, hbare, h]

end Search

/-! ### The capture graph -/

/-- The variable that a function literal takes a context from is free in it. -/
theorem Resolution.TakesToken.reachesToken (h : r.TakesToken carriers literal) :
    r.ReachesToken carriers literal := by
  obtain ⟨body, hbody, n, hn, hkind, -, i, b, t, hb, hpackage, houtside, htype, htoken⟩ := h
  obtain ⟨huse, hb⟩ := Resolution.bindingOf_eq_some.1 hb
  have hin : n ∈ literal.preorder :=
    preorder_of_inner (mem_inner.2 ⟨body, List.mem_of_find?_eq_some hbody, hn⟩)
  exact .inr (.inl ⟨i, ⟨b, hb, hpackage, houtside, n, hin, hkind, huse⟩,
    Resolution.mayHoldToken_of_type hb htype htoken⟩)

theorem Resolution.functionOf_literal (h : expr.bare.kind = .funcLiteral) :
    r.functionOf expr = some expr.bare := by
  simp [functionOf, h]

theorem CaptureGraph.units_of_build {g : CaptureGraph} (hg : build r = some g) :
    g.units = FunctionUnit.collect r none 0 r.root := by
  unfold build at hg
  split at hg
  · cases hg
  · rw [← Option.some.inj hg]

/-- The graph of a file has a unit for each function in it. -/
theorem CaptureGraph.unitOf_function {g : CaptureGraph} {f : Node} (wf : r.root.WellFormed)
    (hg : build r = some g) (hf : f ∈ r.root.preorder) (hkind : f.kind.isFunction = true) :
    ∃ u, g.unitOf f = some u ∧ u ∈ FunctionUnit.collect r none 0 r.root ∧ u.function = f := by
  have hunits := units_of_build hg
  have hmem : f ∈ (FunctionUnit.collect r none 0 r.root).map FunctionUnit.function := by
    rw [FunctionUnit.collect_map_function]
    exact List.mem_filter.2 ⟨hf, hkind⟩
  obtain ⟨v, hv, rfl⟩ := List.mem_map.1 hmem
  obtain ⟨u, hu⟩ : ∃ u, g.unitOf v.function = some u := by
    refine Option.isSome_iff_exists.1 (List.find?_isSome.2 ⟨v, by rw [hunits]; exact hv, by simp⟩)
  have humem : u ∈ FunctionUnit.collect r none 0 r.root := hunits ▸ List.mem_of_find?_eq_some hu
  refine ⟨u, hu, humem, wf.distinct.eq_of_id (FunctionUnit.function_mem humem).1 hf ?_⟩
  simpa using List.find?_some hu

/-- The graph answers every function literal, and passes one that takes a context. -/
theorem traceCapture_of_takesToken {g : CaptureGraph} (wf : r.root.WellFormed)
    (hg : CaptureGraph.build r = some g) (hexpr : expr ∈ r.root.preorder)
    (hkind : expr.bare.kind = .funcLiteral) (h : r.TakesToken carriers expr.bare) :
    traceCapture (some g) r carriers expr = .satisfied := by
  obtain ⟨u, hu, hmem, hfunction⟩ := CaptureGraph.unitOf_function wf hg
    (preorder_trans hexpr (bare_mem_preorder expr)) (by rw [hkind]; rfl)
  have hlocate : g.locate r expr = some u := by
    simp [CaptureGraph.locate, Resolution.functionOf_literal hkind, hu]
  rw [CaptureGraph.traceCapture_of_locate hlocate, if_pos]
  rw [FunctionUnit.usesToken_iff wf hmem, hfunction]
  exact h.reachesToken

end Handoff
