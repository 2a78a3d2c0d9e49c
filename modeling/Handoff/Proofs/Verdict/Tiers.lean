import Handoff.Proofs.Verdict.Answers

/-!
# Verdicts with and without a graph

The verdict on a closure comes from the capture graph or, without one, from a search of the file. On
the outcome of a requirement the two agree wherever the graph has an answer. On the use of a context
they may differ: the search reads the own statements of a function literal and takes every name
there whose type is a context, whereas the graph takes the free variables of the whole literal.
There are no other differences.

## Main definitions

* `Resolution.StandsFor`: the ways in which an expression stands for a function.
* `Resolution.IsReason`: what makes the graph pass a function.

## Main statements

* `traceOutcome_eq_closure`: graph and search agree on outcomes.
* `capture_difference`: where graph and search differ on the use of a context.
-/

namespace Handoff

open Syntax Node

variable {r : Resolution} {carriers : Carriers} {g : CaptureGraph} {u : FunctionUnit}
  {n m f expr site body literal : Node}

/-! ### Located closures -/

/-- A unit lists the calls in the body of its function. -/
theorem FunctionUnit.calls_eq {parent : Option Nat} {next : Nat} (h : u ∈ collect r parent next n) :
    u.calls = ((u.function.child? .body).map CallSite.ofBody).getD [] := by
  induction n using childrenInduction generalizing parent next with
  | step n ih =>
    have below : ∀ {parent next}, u ∈ collectAll r parent next n.children →
        u.calls = ((u.function.child? .body).map CallSite.ofBody).getD [] := fun h => by
      obtain ⟨c, hc, next, hu⟩ := mem_collectAll h
      exact ih c hc hu
    by_cases hf : n.kind.isFunction = true
    · rw [collect_of_isFunction hf] at h
      obtain rfl | h := List.mem_cons.1 h
      · rfl
      · exact below h
    · rw [collect_of_not_isFunction hf] at h
      exact below h

theorem Binding.soleLiteral_eq_some {b : Binding} (h : b.soleLiteral = some f) :
    ∃ w value, b.writes = [w] ∧ w.value = some value ∧ value.bare = f ∧ f.kind = .funcLiteral := by
  unfold soleLiteral at h
  split at h
  next w hwrites =>
    obtain ⟨hvalue, hkind⟩ := Option.filter_eq_some_iff.1 h
    obtain ⟨value, hvalue, hbare⟩ := Option.map_eq_some_iff.1 hvalue
    exact ⟨w, value, hwrites, hvalue, hbare, eq_of_beq hkind⟩
  next => cases h

inductive Resolution.StandsFor (r : Resolution) (expr f : Node) : Prop where
  | literal : expr.bare = f → f.kind = .funcLiteral → StandsFor r expr f
  | declared {i : Nat} {b : Binding} : expr.bare.kind = .identifier →
      r.bindingOf expr.bare = some (i, b) → b.kind = .function f → StandsFor r expr f
  | written {i : Nat} {b : Binding} {bySpec : Bool} {w : Write} {value : Node} :
      expr.bare.kind = .identifier → r.bindingOf expr.bare = some (i, b) →
        b.kind = .localVariable bySpec →
      b.writes = [w] → w.value = some value → value.bare = f → f.kind = .funcLiteral →
        StandsFor r expr f

/-- The graph takes an expression for a function only in the ways listed. -/
theorem Resolution.standsFor_of_functionOf (h : r.functionOf expr = some f) :
    r.StandsFor expr f := by
  unfold functionOf at h
  dsimp only at h
  split at h
  next hkind =>
    cases h
    exact .literal rfl hkind
  next hkind =>
    split at h
    · cases h
    next i b hb =>
      split at h
      next d hd =>
        cases h
        exact .declared hkind hb hd
      next bySpec hlocal =>
        obtain ⟨w, value, hwrites, hvalue, hbare, hf⟩ := Binding.soleLiteral_eq_some h
        exact .written hkind hb hlocal hwrites hvalue hbare hf
      next => cases h
  next => cases h

/-- What an expression of the file stands for is a function of the file. -/
theorem Resolution.StandsFor.candidate (hr : r.Grounded)
    (hexpr : expr ∈ r.root.preorder) (h : r.StandsFor expr f) : Search.Candidate r.root f := by
  cases h with
  | literal hbare hkind => exact ⟨hbare ▸ preorder_trans hexpr (bare_mem_preorder expr), .inl hkind⟩
  | declared _ hb hd => exact Search.candidate_of_function hr hb hd
  | written _ hb _ hwrites hvalue hbare hkind =>
    subst hbare
    exact Search.candidate_of_write hr hb (by simp [hwrites]) hvalue hkind

theorem CaptureGraph.exists_build {root : Node} (wf : root.WellFormed)
    (h : root.hasErrors = false) : ∃ g, build (.ofFile root) = some g :=
  ⟨_, if_neg (by simp [Resolution.root_ofFile wf, h])⟩

/-- The unit of a located closure is that of the function it stands for. -/
theorem CaptureGraph.functionOf_of_locate (hr : r.Grounded) (hg : build r = some g)
    (hexpr : expr ∈ r.root.preorder) (h : g.locate r expr = some u) :
    r.functionOf expr = some u.function := by
  obtain ⟨f, hf, hu⟩ := Option.bind_eq_some_iff.1 h
  have hmem : u ∈ FunctionUnit.collect r none 0 r.root := units_of_build hg ▸ mem_of_locate h
  have hid : u.function.id = f.id := by simpa using List.find?_some hu
  have hfile := ((Resolution.standsFor_of_functionOf hf).candidate hr hexpr).1
  rw [hr.wellFormed.distinct.eq_of_id (FunctionUnit.function_mem hmem).1 hfile hid, hf]

/-- When the expression is a local variable with a single write, that write starts before the site
and does not enclose it. -/
def Resolution.WrittenBefore (r : Resolution) (expr site : Node) : Prop :=
  expr.bare.kind = .identifier → ∀ i b w, r.bindingOf expr.bare = some (i, b) →
    b.kind.isLocal = true → b.writes = [w] → w.site.start < site.start ∧
      w.site.encloses site = false

instance : Decidable (r.WrittenBefore expr site) :=
  decidable_of_iff (expr.bare.kind = .identifier → ((r.bindingOf expr.bare).all fun (_, b) =>
      !b.kind.isLocal || match b.writes with
        | [w] => decide (w.site.start < site.start) && !w.site.encloses site
        | _ => true) = true) <| by
    refine imp_congr_right fun _ => ?_
    cases r.bindingOf expr.bare with
    | none => simp
    | some found =>
      obtain ⟨i, b⟩ := found
      simp only [Option.all_some, Option.some.injEq, Prod.mk.injEq, and_imp]
      constructor
      · rintro h _ _ w rfl rfl hlocal hwrites
        simpa [hlocal, hwrites] using h
      · intro h
        cases hlocal : b.kind.isLocal with
        | false => rfl
        | true =>
          split
          next w hwrites => simpa using h i b w rfl rfl hlocal hwrites
          next => rfl

namespace Search

variable {V : Type} [Verdict V] {test : ClosureTest V}

theorem reaching_singleton {s : Supply} (hstart : s.site.start < site.start)
    (hsite : s.site.encloses site = false) : reaching [s] site = [s] := by
  simp [reaching, hstart, hsite, sorted, insertSorted, fromLast]

variable {visited : List Nat} {depth : Nat}

theorem search_closure_literal (h : expr.bare.kind = .funcLiteral) :
    search r test (depth + 1) .closure expr site visited = test.function expr.bare :=
  (search_literal .closure h).trans (if_pos rfl)

theorem closure_literal (h : literal.kind = .funcLiteral) :
    closure r test literal site = test.function literal := by
  have hbare : literal.bare = literal := bare_eq_self (by simp [h])
  refine (search_closure_literal ?_).trans (congrArg test.function hbare)
  rw [hbare, h]

theorem search_identifier (h : expr.bare.kind = .identifier) :
    search r test (depth + 1) .closure expr site visited =
      identifier r test (search r test depth) expr.bare site visited := by
  simp [search, closureStep, h]

/-- The search goes on with the single write of a local variable, when it comes before the site. -/
theorem identifier_of_write {next : Follow V} {i : Nat} {b : Binding} {bySpec : Bool} {w : Write}
    {value : Node} (hneutral : ∀ v : V, Verdict.both Verdict.assumed v = v)
    (hb : r.bindingOf n = some (i, b)) (hlocal : b.kind = .localVariable bySpec)
    (hwrites : b.writes = [w]) (hvalue : w.value = some value) (hstart : w.site.start < site.start)
    (hout : w.site.encloses site = false) :
    identifier r test next n site [] = next .closure value w.site [b.decl.id] := by
  have hreaching : reaching (writesOf i b) site = [Supply.ofWrite w] := by
    rw [writesOf, hwrites]
    exact reaching_singleton hstart hout
  simp [identifier, throughBinding, hb, hlocal, BindingKind.declaration?, hreaching, Supply.ofWrite,
    hvalue, Verdict.all, hneutral]

/-- The search tests the function that an expression stands for, at most one level down. -/
theorem search_of_standsFor (hneutral : ∀ v : V, Verdict.both Verdict.assumed v = v)
    (h : r.StandsFor expr f) (hsite : r.WrittenBefore expr site) :
    search r test (depth + 2) .closure expr site [] = test.function f := by
  cases h with
  | literal hbare hkind =>
    subst hbare
    exact search_closure_literal hkind
  | declared hkind hb hd =>
    refine (search_identifier hkind).trans ?_
    simp [identifier, hb, hd, BindingKind.declaration?]
  | @written i b bySpec w value hkind hb hlocal hwrites hvalue hbare hliteral =>
    subst hbare
    obtain ⟨hstart, hout⟩ := hsite hkind i b w hb (by rw [hlocal]; rfl) hwrites
    calc search r test (depth + 2) .closure expr site []
        = identifier r test (search r test (depth + 1)) expr.bare site [] := search_identifier hkind
      _ = search r test (depth + 1) .closure value w.site [b.decl.id] :=
        identifier_of_write hneutral hb hlocal hwrites hvalue hstart hout
      _ = test.function value.bare := search_closure_literal hliteral

end Search

/-- Where the graph answers, the search gives the same outcome. -/
theorem traceOutcome_of_locate {requirement : Requirement} (hr : r.Grounded)
    (hg : CaptureGraph.build r = some g) (hexpr : expr ∈ r.root.preorder)
    (hu : g.locate r expr = some u) (hbody : (u.function.child? .body).isSome = true)
    (hsite : r.WrittenBefore expr site) : traceOutcome (some g) r requirement expr =
      some (Search.closure r (outcomeTest r requirement) expr site) := by
  obtain ⟨body, hbody⟩ := Option.isSome_iff_exists.1 hbody
  have hmem : u ∈ FunctionUnit.collect r none 0 r.root :=
    CaptureGraph.units_of_build hg ▸ CaptureGraph.mem_of_locate hu
  have hcalls : u.calls = CallSite.ofBody body := by
    rw [FunctionUnit.calls_eq hmem, hbody]
    rfl
  have hfunction := CaptureGraph.functionOf_of_locate hr hg hexpr hu
  have hneutral : ∀ v : Outcome, Verdict.both Verdict.assumed v = v := by
    intro v
    cases v <;> rfl
  have hclosure : Search.closure r (outcomeTest r requirement) expr site =
      (outcomeTest r requirement).function u.function :=
    Search.search_of_standsFor hneutral (Resolution.standsFor_of_functionOf hfunction) hsite
  calc traceOutcome (some g) r requirement expr
      = some (requirement.outcome r u.calls) := by simp [traceOutcome, hu]
    _ = some ((outcomeTest r requirement).function u.function) := by
      simp [hcalls, outcomeTest, hbody]
    _ = some (Search.closure r (outcomeTest r requirement) expr site) := by rw [hclosure]

/-- The graph of a file without syntax errors and the search agree on outcomes: for a closure that
the graph locates, with a body, read after the single write of the variable if it is one. -/
theorem traceOutcome_eq_closure {root : Node} (hfile : root.IsFile) (h : root.hasErrors = false) :
    let r := Resolution.ofFile root
    ∃ g, CaptureGraph.build r = some g ∧ ∀ requirement expr site u, expr ∈ root.preorder →
      g.locate r expr = some u → (u.function.child? .body).isSome = true →
        r.WrittenBefore expr site →
      traceOutcome (some g) r requirement expr =
        some (Search.closure r (outcomeTest r requirement) expr site) := by
  have hroot := Resolution.root_ofFile hfile.wellFormed
  obtain ⟨g, hg⟩ := CaptureGraph.exists_build hfile.wellFormed h
  refine ⟨g, hg, fun requirement expr site u hexpr hu hbody hsite => ?_⟩
  rw [← hroot] at hexpr
  exact traceOutcome_of_locate (Resolution.grounded_of_isFile hfile) hg hexpr hu hbody hsite

def spawnedVariable : String :=
  "package p\nfunc run() \x7b\n\twork := func() \x7b defer end() \x7d\n\tgo work()\n\x7d\n"

theorem traceOutcome_eq_closure_spawnedVariable :
    let r := Resolution.ofFile (parse spawnedVariable)
    let ending : Requirement := ⟨[[.bare "end"]], "end"⟩
    (parse spawnedVariable).hasErrors = false ∧ ∃ g expr u, CaptureGraph.build r = some g ∧
      expr ∈ (parse spawnedVariable).preorder ∧ expr.kind = .identifier ∧ g.locate r expr = some u ∧
      (u.function.child? .body).isSome = true ∧ r.WrittenBefore expr expr ∧
      traceOutcome (some g) r ending expr = some .deferred ∧
      traceOutcome (some g) r ending expr =
        some (Search.closure r (outcomeTest r ending) expr expr) := by
  intro r ending
  -- one evaluation for all, so that the file is parsed once
  obtain ⟨herrors, hrun⟩ : (parse spawnedVariable).hasErrors = false ∧
      ((CaptureGraph.build r).any fun g => (parse spawnedVariable).preorder.any fun expr =>
        expr.kind == .identifier &&
          ((g.locate r expr).any fun u => (u.function.child? .body).isSome) &&
          decide (r.WrittenBefore expr expr) && traceOutcome (some g) r ending expr ==
            some .deferred) =
        true := by
    decide +kernel
  obtain ⟨g, hg, hagree⟩ := traceOutcome_eq_closure (isFile_parse spawnedVariable) herrors
  simp only [r, hg, Option.any_some, List.any_eq_true, Bool.and_eq_true, beq_iff_eq,
    decide_eq_true_eq, Option.any_eq_true] at hrun
  obtain ⟨expr, hexpr, ⟨⟨hkind, u, hu, hbody⟩, hsite⟩, houtcome⟩ := hrun
  exact ⟨herrors, g, expr, u, hg, hexpr, hkind, hu, hbody, hsite, houtcome,
    hagree ending expr expr u hexpr hu hbody hsite⟩

/-! ### Why the graph passes a function -/

namespace Resolution

variable {i : Nat} {b : Binding}

/-- A node of a function that makes the graph pass it: a name of a variable from outside that may
hold a context, or a selector expression whose type is one. -/
def IsReason (r : Resolution) (carriers : Carriers) (function n : Node) : Prop :=
  n ∈ function.preorder ∧
    ((n.kind = .identifier ∧ ∃ i b, r.bindingOf n = some (i, b) ∧ b.kind.isPackageLevel = false ∧
        function.encloses b.decl = false ∧ r.mayHoldToken carriers i = true) ∨
      (n.kind = .selectorExpression ∧ ∃ t, r.typeOf n = some t ∧ carriers.isToken t = true))

theorem reachesToken_iff : r.ReachesToken carriers f ↔
    declaresToken r.imports carriers f = true ∨ ∃ n, r.IsReason carriers f n := by
  rw [declaresToken_iff]
  refine or_congr_right ⟨?_, ?_⟩
  · rintro (⟨i, ⟨b, hb, hpackage, hout, n, hn, hkind, huse⟩, hhold⟩ | ⟨n, hn, hkind, htoken⟩)
    · exact ⟨n, hn, .inl ⟨hkind, i, b, bindingOf_eq_some.2 ⟨huse, hb⟩, hpackage, hout, hhold⟩⟩
    · exact ⟨n, hn, .inr ⟨hkind, htoken⟩⟩
  · rintro ⟨n, hn, ⟨hkind, i, b, hb, hpackage, hout, hhold⟩ | ⟨hkind, htoken⟩⟩
    · obtain ⟨huse, hb⟩ := bindingOf_eq_some.1 hb
      exact .inl ⟨i, ⟨b, hb, hpackage, hout, n, hn, hkind, huse⟩, hhold⟩
    · exact .inr ⟨n, hn, hkind, htoken⟩

theorem mayHoldToken_of_origins_eq_nil (hb : r.bindings[i]? = some b) (h : r.origins b = []) :
    r.mayHoldToken carriers i = r.isSource carriers i := by
  have hcopies : r.copies i = [] := by simp [copies, hb, h]
  have hreached : r.reachedBy r.bindings.length [i] [i] = [i] := by
    cases r.bindings.length with
    | zero => rfl
    | succ n => simp [reachedBy, hcopies]
  simp [mayHoldToken, hreached]

theorem isToken_of_mayHoldToken {t : TypeName} (hb : r.bindings[i]? = some b)
    (htype : b.type = some t) (h : r.mayHoldToken carriers i = true) :
    carriers.isToken t = true := by
  rw [mayHoldToken_of_origins_eq_nil hb (by simp [origins, htype])] at h
  simpa [isSource, hb, htype] using h

/-- Only local variables may hold a context without having its type. -/
theorem isLocal_of_mayHoldToken (hb : r.bindings[i]? = some b) (htype : b.type = none)
    (h : r.mayHoldToken carriers i = true) : b.kind.isLocal = true := by
  cases hkind : b.kind with
  | localVariable => rfl
  | function | packageVariable | parameter =>
    have horigins : r.origins b = [] := by simp [origins, hkind]
    rw [mayHoldToken_of_origins_eq_nil hb horigins] at h
    simp [isSource, hb, htype, horigins] at h

end Resolution

/-! ### Mentions in a function literal -/

theorem not_mem_nested (hkind : n.kind ≠ .funcLiteral) :
    ∀ nested ∈ n.preorder, nested.kind = .funcLiteral → n ∉ nested.preorder := by
  intro nested hnested hliteral hin
  obtain rfl | hnested := mem_preorder.1 hnested
  · exact hkind hliteral
  · exact not_inner_self (inner_of_preorder hnested hin)

/-- What is found in a node stands in it, outside the function literals in it. -/
theorem exists_isMention {node : Node} (hdistinct : n.Distinct)
    (hnode : ∀ nested ∈ n.preorder, nested.kind = .funcLiteral → nested.id ≠ node.id)
    (h : mentionsBelow r carriers node false n = true) :
    ∃ m ∈ n.preorder, IsMention r carriers node m ∧
      ∀ nested ∈ n.preorder, nested.kind = .funcLiteral → m ∉ nested.preorder := by
  induction n using childrenInduction with
  | step n ih =>
    rw [mentionsBelow_eq] at h
    split at h
    next hident =>
      exact ⟨n, self_mem_preorder n, .inl ⟨hident, h⟩, not_mem_nested (by simp [hident])⟩
    next =>
      obtain hfield | hamong := Bool.or_eq_true_iff.1 h
      · have hmention : IsMention r carriers node n := .inr hfield
        refine ⟨n, self_mem_preorder n, hmention, not_mem_nested fun hliteral => ?_⟩
        simpa [hliteral] using hmention.kind
      · obtain ⟨henter, hamong⟩ := Bool.and_eq_true_iff.1 hamong
        have hliteral : n.kind ≠ .funcLiteral := fun hliteral => by
          simp [hliteral, hnode n (self_mem_preorder n) hliteral] at henter
        rw [mentionsAmong_eq_any] at hamong
        obtain ⟨c, hc, hbelow⟩ := List.any_eq_true.1 hamong
        obtain ⟨-, hbelow⟩ := Bool.and_eq_true_iff.1 hbelow
        have hsub : c.preorder ⊆ n.preorder :=
          fun x hx => preorder_of_inner (mem_inner.2 ⟨c, hc, hx⟩)
        obtain ⟨m, hm, hmention, hout⟩ :=
          ih c hc (hdistinct.child hc) (fun nested hnested => hnode nested (hsub hnested)) hbelow
        refine ⟨m, hsub hm, hmention, fun nested hnested hkind hin => ?_⟩
        obtain rfl | hnested := mem_preorder.1 hnested
        · exact hliteral hkind
        · -- a nested literal around the mention stands in the same child
          obtain ⟨k, hk, hnested⟩ := mem_inner.1 hnested
          obtain rfl := hdistinct.child_eq hc hk hm (preorder_trans hnested hin) rfl
          exact hout nested hnested hkind hin

section Literal

variable (hr : r.Grounded) (hmem : literal ∈ r.root.preorder)
  (hbody : literal.child? .body = some body)
include hr hmem hbody

/-- The search passes a function literal that declares a context or mentions one in its own
statements. -/
theorem captureTest_literal_iff : (captureTest r carriers).function literal = true ↔
    declaresToken r.imports carriers literal = true ∨
      ∃ m ∈ body.preorder, IsMention r carriers body m ∧
        ∀ nested ∈ body.preorder, nested.kind = .funcLiteral → m ∉ nested.preorder := by
  have wf := hr.wellFormed.of_mem hmem
  have wfBody := wf.child (mem_children_of_child? hbody).1
  simp only [captureTest, hbody, mentionsToken, Bool.or_eq_true]
  refine or_congr_right ⟨fun h => exists_isMention wfBody.distinct ?_ h, ?_⟩
  · intro nested hnested hliteral hid
    have heq := wfBody.distinct.eq_of_id hnested (self_mem_preorder body) hid
    have hfunction := wf.isFunction_body (self_mem_preorder literal) hbody
    rw [← heq, hliteral] at hfunction
    cases hfunction
  · rintro ⟨m, hm, hmention, hout⟩
    exact mentionsBelow_of_isMention wfBody hm hmention hout

variable (hkind : literal.kind = .funcLiteral)
include hkind

/-- A local variable that is declared in a function literal is declared in its body. -/
theorem encloses_body_of_isLocal {i : Nat} {b : Binding} (hb : r.bindings[i]? = some b)
    (hlocal : b.kind.isLocal = true) (h : literal.encloses b.decl = true) :
    body.encloses b.decl = true := by
  have hfile := List.mem_of_getElem? hb
  obtain ⟨hname, hin⟩ := (hr.binding b hfile).of_isLocal hlocal
  have hinner := hr.wellFormed.inner_of_encloses (hr.decl b hfile) hmem hname (by rw [hkind]; rfl) h
  obtain ⟨_, hsome, hin⟩ := hin literal hmem (by rw [hkind]; rfl) hinner
  obtain rfl := Option.some.inj (hsome.symm.trans hbody)
  have wfBody := (hr.wellFormed.of_mem hmem).child (mem_children_of_child? hbody).1
  exact wfBody.encloses (preorder_of_inner hin)

/-- A mention in a function literal makes the graph pass it, or is a name of a context that is of
the package or declared in the literal. -/
theorem IsMention.isReason_or (hm : m ∈ body.preorder) (h : IsMention r carriers body m) :
    r.IsReason carriers literal m ∨
      m.kind = .identifier ∧ ∃ i b t, r.bindingOf m = some (i, b) ∧ b.type = some t ∧
        carriers.isToken t = true ∧
          (b.kind.isPackageLevel = true ∨ literal.encloses b.decl = true) := by
  have hin := preorder_trans (preorder_of_child? hbody) hm
  obtain ⟨hident, hname⟩ | hfield := h
  · unfold isTokenName at hname
    split at hname
    · cases hname
    next i b hb =>
      have hget := (Resolution.bindingOf_eq_some.1 hb).2
      split at hname
      next t htype =>
        by_cases hown : b.kind.isPackageLevel = true ∨ literal.encloses b.decl = true
        · exact .inr ⟨hident, i, b, t, hb, htype, hname, hown⟩
        · obtain ⟨hpackage, hout⟩ := not_or.1 hown
          exact .inl ⟨hin, .inl ⟨hident, i, b, hb, by simpa using hpackage, by simpa using hout,
            Resolution.mayHoldToken_of_type hget htype hname⟩⟩
      next htype =>
        obtain ⟨hout, hhold⟩ := Bool.and_eq_true_iff.1 hname
        have hlocal := Resolution.isLocal_of_mayHoldToken hget htype hhold
        refine .inl ⟨hin, .inl ⟨hident, i, b, hb, ?_, ?_, hhold⟩⟩
        · cases hk : b.kind <;> simp_all [BindingKind.isLocal, BindingKind.isPackageLevel]
        · cases hencloses : literal.encloses b.decl with
          | false => rfl
          | true =>
            simp [encloses_body_of_isLocal hr hmem hbody hkind hget hlocal hencloses] at hout
  · obtain ⟨hselector, htoken⟩ := Bool.and_eq_true_iff.1 hfield
    exact .inl ⟨hin, .inr ⟨eq_of_beq hselector, (Option.any_eq_true _ _).1 htoken⟩⟩

omit hkind in
/-- What makes the graph pass a function literal is a mention for its body. -/
theorem Resolution.IsReason.isMention (h : r.IsReason carriers literal m) :
    IsMention r carriers body m := by
  obtain ⟨-, ⟨hident, i, b, hb, -, hout, hhold⟩ | ⟨hselector, t, htype, htoken⟩⟩ := h
  · refine .inl ⟨hident, ?_⟩
    have hget := (bindingOf_eq_some.1 hb).2
    cases htype : b.type with
    | some t => simp [isTokenName, hb, htype, isToken_of_mayHoldToken hget htype hhold]
    | none =>
      have houtBody : body.encloses b.decl = false := by
        rw [Bool.eq_false_iff]
        intro hencloses
        have hchild := (hr.wellFormed.nested literal hmem) body (mem_children_of_child? hbody).1
        rw [show literal.encloses b.decl = true from Span.contains_trans hchild hencloses] at hout
        cases hout
      simp [isTokenName, hb, htype, houtBody, hhold]
  · exact .inr (by simp [isTokenField, hselector, htype, htoken])

end Literal

/-! ### Function literals -/

/-- The graph's verdict on a function literal. -/
theorem traceCapture_literal (carriers : Carriers) (hr : r.Grounded)
    (hg : CaptureGraph.build r = some g) (hmem : literal ∈ r.root.preorder)
    (hkind : literal.kind = .funcLiteral) :
    (traceCapture (some g) r carriers literal = .satisfied ∧ r.ReachesToken carriers literal) ∨
      (traceCapture (some g) r carriers literal = .unsatisfied ∧
        ¬ r.ReachesToken carriers literal) := by
  have hbare : literal.bare = literal := bare_eq_self (by simp [hkind])
  obtain ⟨u, hu, hmem, hfunction⟩ := CaptureGraph.unitOf_function hr.wellFormed hg hmem
    (by rw [hkind]; rfl)
  have hlocate : g.locate r literal = some u := by
    simp [CaptureGraph.locate, Resolution.functionOf_literal (hbare.symm ▸ hkind), hbare, hu]
  rw [CaptureGraph.traceCapture_of_locate hlocate, ← hfunction,
    ← FunctionUnit.usesToken_iff hr.wellFormed hmem]
  by_cases huses : u.usesToken r carriers = true
  · exact .inl ⟨if_pos huses, huses⟩
  · exact .inr ⟨if_neg huses, huses⟩

namespace Resolution

/-- In the body of a function literal, outside the function literals nested in it, stands an
identifier whose type is a context, and which is of the package or declared inside the literal. -/
def NamesInnerToken (r : Resolution) (carriers : Carriers) (literal : Node) : Prop :=
  ∃ body, literal.child? .body = some body ∧ ∃ n ∈ body.preorder, n.kind = .identifier ∧
    (∀ nested ∈ body.preorder, nested.kind = .funcLiteral → n ∉ nested.preorder) ∧
    ∃ i b t, r.bindingOf n = some (i, b) ∧ b.type = some t ∧ carriers.isToken t = true ∧
      (b.kind.isPackageLevel = true ∨ literal.encloses b.decl = true)

end Resolution

/-- A node stands in a function literal nested in the given one, or in its signature. -/
def Syntax.Node.OutsideStatements (literal n : Node) : Prop :=
  (∃ nested ∈ literal.inner, nested.kind = .funcLiteral ∧ n ∈ nested.preorder) ∨
    ∃ part ∈ literal.children, (part.field = some .parameters ∨ part.field = some .result) ∧
      n ∈ part.preorder

section Literal

variable (hr : r.Grounded) (hg : CaptureGraph.build r = some g) (hmem : literal ∈ r.root.preorder)
  (hkind : literal.kind = .funcLiteral)
include hr hmem hkind

/-- What alone makes the graph pass a literal stands where the search does not look. -/
theorem outsideStatements_of_isReason (hfails : (captureTest r carriers).function literal = false)
    (hreason : r.IsReason carriers literal n) : literal.OutsideStatements n := by
  have wf := hr.wellFormed.of_mem hmem
  obtain ⟨body, hbody⟩ := wf.exists_body hkind
  have hmention := hreason.isMention hr hmem hbody
  have hinner : n ∈ literal.inner := by
    refine (mem_preorder.1 hreason.1).resolve_left ?_
    rintro rfl
    simpa [hkind] using hmention.kind
  obtain hin | hsignature := wf.mem_body_or_signature hkind hbody hinner hmention.isPart
  · -- outside nested literals the search would have found it
    by_contra hnot
    have hpasses := (captureTest_literal_iff hr hmem hbody).2 (.inr ⟨n, hin, hmention,
      fun nested hnested hliteral hn => hnot (.inl ⟨nested, ?_, hliteral, hn⟩)⟩)
    · cases hfails.symm.trans hpasses
    · exact mem_inner.2 ⟨body, (mem_children_of_child? hbody).1, hnested⟩
  · exact .inr hsignature

include hg

theorem namesInnerToken_of_unsatisfied (hpasses : (captureTest r carriers).function literal = true)
    (htrace : traceCapture (some g) r carriers literal = .unsatisfied) :
    r.NamesInnerToken carriers literal := by
  obtain ⟨hsatisfied, -⟩ | ⟨-, hreaches⟩ := traceCapture_literal carriers hr hg hmem hkind
  · cases htrace.symm.trans hsatisfied
  rw [Resolution.reachesToken_iff] at hreaches
  obtain ⟨hdeclares, hreason⟩ := not_or.1 hreaches
  obtain ⟨body, hbody⟩ := (hr.wellFormed.of_mem hmem).exists_body hkind
  obtain ⟨m, hm, hmention, hout⟩ :=
    ((captureTest_literal_iff hr hmem hbody).1 hpasses).resolve_left hdeclares
  obtain ⟨hident, hinner⟩ :=
    (hmention.isReason_or hr hmem hbody hkind hm).resolve_left fun h => hreason ⟨m, h⟩
  exact ⟨body, hbody, m, hm, hident, hout, hinner⟩

theorem exists_isReason_of_satisfied (hfails : (captureTest r carriers).function literal = false)
    (htrace : traceCapture (some g) r carriers literal = .satisfied) :
    declaresToken r.imports carriers literal = false ∧ ∃ n, r.IsReason carriers literal n := by
  have hdeclares : declaresToken r.imports carriers literal = false :=
    (Bool.or_eq_false_iff.1 hfails).1
  obtain ⟨-, hreaches⟩ | ⟨hunsatisfied, -⟩ := traceCapture_literal carriers hr hg hmem hkind
  · rw [Resolution.reachesToken_iff, hdeclares] at hreaches
    exact ⟨hdeclares, hreaches.resolve_left (by simp)⟩
  · cases htrace.symm.trans hunsatisfied

end Literal

/-- The graph of a file without syntax errors and the search differ on a function literal in two
ways only. If the search alone passes it, its own statements name a context that is of the package
or declared inside it. If the graph alone passes it, the literal declares no context, and all that
makes the graph pass it stands in nested function literals or in the signature. -/
theorem capture_difference {root : Node} (hfile : root.IsFile) (h : root.hasErrors = false) :
    let r := Resolution.ofFile root
    ∃ g, CaptureGraph.build r = some g ∧ ∀ carriers, ∀ literal ∈ root.preorder,
      literal.kind = .funcLiteral → ∀ site,
      (Search.closure r (captureTest r carriers) literal site = true →
        traceCapture (some g) r carriers literal = .unsatisfied →
          r.NamesInnerToken carriers literal) ∧
      (traceCapture (some g) r carriers literal = .satisfied →
        Search.closure r (captureTest r carriers) literal site = false →
        declaresToken r.imports carriers literal = false ∧ (∃ n, r.IsReason carriers literal n) ∧
          ∀ n, r.IsReason carriers literal n → literal.OutsideStatements n) := by
  have hroot := Resolution.root_ofFile hfile.wellFormed
  have hr := Resolution.grounded_of_isFile hfile
  obtain ⟨g, hg⟩ := CaptureGraph.exists_build hfile.wellFormed h
  refine ⟨g, hg, fun carriers literal hmem hkind site => ?_⟩
  rw [← hroot] at hmem
  rw [Search.closure_literal hkind]
  refine ⟨namesInnerToken_of_unsatisfied hr hg hmem hkind, fun htrace hfails => ?_⟩
  obtain ⟨hdeclares, hreason⟩ := exists_isReason_of_satisfied hr hg hmem hkind hfails htrace
  exact ⟨hdeclares, hreason, fun n => outsideStatements_of_isReason hr hmem hkind hfails⟩

/-- A closure over a variable of the package, and a closure in which only a nested one uses the
context. -/
def twoDifferences : String :=
  "package p\nimport \"context\"\nvar base context.Context\nfunc run(ctx context.Context) \x7b\n" ++
    "\tgo func() \x7b use(base) \x7d()\n\tgo func() \x7b func() \x7b use(ctx) \x7d() \x7d()\n\x7d\n"

theorem capture_difference_twoDifferences :
    let r := Resolution.ofFile (parse twoDifferences)
    (parse twoDifferences).hasErrors = false ∧ ∃ g, CaptureGraph.build r = some g ∧
      (∃ literal ∈ (parse twoDifferences).preorder, literal.kind = .funcLiteral ∧
        Search.closure r (captureTest r []) literal literal = true ∧
        traceCapture (some g) r [] literal = .unsatisfied ∧ r.NamesInnerToken [] literal) ∧
      ∃ literal ∈ (parse twoDifferences).preorder, literal.kind = .funcLiteral ∧
        traceCapture (some g) r [] literal = .satisfied ∧
        Search.closure r (captureTest r []) literal literal = false ∧
        ∃ n, r.IsReason [] literal n ∧ literal.OutsideStatements n := by
  intro r
  obtain ⟨herrors, hrun⟩ : (parse twoDifferences).hasErrors = false ∧
      ((CaptureGraph.build r).any fun g =>
        let literals := (parse twoDifferences).preorder.filter (·.kind == .funcLiteral)
        (literals.any fun literal => Search.closure r (captureTest r []) literal literal &&
          traceCapture (some g) r [] literal == .unsatisfied) &&
        literals.any fun literal => traceCapture (some g) r [] literal == .satisfied &&
          !Search.closure r (captureTest r []) literal literal) = true := by
    decide +kernel
  obtain ⟨g, hg, hdifference⟩ := capture_difference (isFile_parse twoDifferences) herrors
  simp only [r, hg, Option.any_some, List.any_eq_true, List.mem_filter, Bool.and_eq_true,
    beq_iff_eq, Bool.not_eq_true'] at hrun
  obtain ⟨⟨first, ⟨hfirst, hliteral⟩, hpasses, hunsatisfied⟩, second, ⟨hsecond, hliteral'⟩,
    hsatisfied, hfails⟩ := hrun
  have hinner := (hdifference [] first hfirst hliteral first).1 hpasses hunsatisfied
  obtain ⟨-, ⟨n, hn⟩, hplace⟩ :=
    (hdifference [] second hsecond hliteral' second).2 hsatisfied hfails
  exact ⟨herrors, g, hg, ⟨first, hfirst, hliteral, hpasses, hunsatisfied, hinner⟩,
    second, hsecond, hliteral', hsatisfied, hfails, n, hn, hplace n hn⟩

end Handoff
