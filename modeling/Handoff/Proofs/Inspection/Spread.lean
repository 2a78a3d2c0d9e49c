import Handoff.Proofs.Inspection.Literal
import Handoff.Proofs.Inspection.Selection
import Handoff.Proofs.Syntax.Spelling
import Handoff.Proofs.Verdict.Mirrors
import Handoff.Proofs.Verdict.Reaching

/-!
# Spread literals

The callbacks of a call can be written as arguments of their own, or as the elements of a literal
that is spread. A spread literal stands for its elements: something is found about the literal just
when something is found about one of the elements as an argument. The search judges the elements of
the literal, and the capture graph, where there is one, the arguments; so the two spellings can
differ on function literals on which search and graph differ.

## Main definitions

* `Inspection.Flags`: a propagation finding shows the span of a node.
* `Resolution.JudgedAlike`: graph and search do not differ on a function literal.
* `Unspread`: a call that spreads a literal, with its counterpart that has the elements as
  arguments.
-/

namespace Handoff

open Syntax Node

/-! ### Arguments -/

namespace Syntax.Node

variable {root call call' list n : Node}

/-- An argument of the call, or what an argument spreads. -/
def ArgumentOf (call n : Node) : Prop :=
  ∃ argument ∈ call.arguments, n = argument ∨ argument.kind = .variadicArgument ∧ n ∈ argument.parts

/-- An argument stands in the list of arguments, directly or behind dots. -/
theorem ArgumentOf.exists_list (wf : root.WellFormed) (hcall : call ∈ root.preorder)
    (h : ArgumentOf call n) : ∃ list ∈ call.children, list.kind = .argumentList ∧
      (n ∈ list.children ∨ ∃ spread ∈ list.children, spread.kind = .variadicArgument ∧
        n ∈ spread.children) := by
  obtain ⟨argument, hargument, h⟩ := h
  unfold arguments at hargument
  cases hlist : call.child? .arguments with
  | none => simp [hlist] at hargument
  | some list =>
    have hparts : argument ∈ list.parts := by simpa [hlist] using hargument
    refine ⟨list, (mem_children_of_child? hlist).1, wf.kind_arguments hcall hlist, ?_⟩
    obtain rfl | ⟨hspread, hn⟩ := h
    · exact .inl (List.mem_of_mem_filter hparts)
    · exact .inr ⟨argument, List.mem_of_mem_filter hparts, hspread, List.mem_of_mem_filter hn⟩

/-- An argument belongs to one call. -/
theorem ArgumentOf.call_eq (wf : root.WellFormed) (hcall : call ∈ root.preorder)
    (hcall' : call' ∈ root.preorder) (h : ArgumentOf call n) (h' : ArgumentOf call' n) :
    call = call' := by
  have hdown : ∀ {k c : Node}, k ∈ root.preorder → c ∈ k.children → c ∈ root.preorder :=
    fun hk hc => preorder_trans hk (child_mem_preorder hc)
  obtain ⟨list, hlist, hkind, h⟩ := h.exists_list wf hcall
  obtain ⟨list', hlist', hkind', h'⟩ := h'.exists_list wf hcall'
  have hmem := hdown hcall hlist
  have hmem' := hdown hcall' hlist'
  suffices heq : list = list' by
    subst heq
    exact wf.distinct.parent_eq hcall hcall' hlist hlist'
  obtain h | ⟨spread, hspread, hvariadic, h⟩ := h
  · obtain h' | ⟨spread', hspread', hvariadic', h'⟩ := h'
    · exact wf.distinct.parent_eq hmem hmem' h h'
    · obtain rfl := wf.distinct.parent_eq hmem (hdown hmem' hspread') h h'
      cases hkind.symm.trans hvariadic'
  · obtain h' | ⟨spread', hspread', hvariadic', h'⟩ := h'
    · obtain rfl := wf.distinct.parent_eq (hdown hmem hspread) hmem' h h'
      cases hkind'.symm.trans hvariadic
    · obtain rfl := wf.distinct.parent_eq (hdown hmem hspread) (hdown hmem' hspread') h h'
      exact wf.distinct.parent_eq hmem hmem' hspread hspread'

/-- A function literal covers some text. -/
theorem WellFormed.start_lt_stop_of_literal (wf : n.WellFormed) (hkind : n.kind = .funcLiteral) :
    n.start < n.stop := by
  obtain ⟨body, hbody⟩ := wf.exists_body hkind
  have hin := inner_of_child (mem_children_of_child? hbody).1
  have hpart : body.isPart = true := by
    obtain hk | hk := wf.kind_body (self_mem_preorder n) hbody <;>
      simp [Node.isPart, hk, Kind.isNamed]
  have hstart := wf.start_lt_of_isOpened (by rw [hkind]; rfl) hin hpart
  have hforward := wf.forward body hin
  have hplace := wf.start_le (self_mem_preorder n) (preorder_of_inner hin)
  omega

end Syntax.Node

/-! ### Callbacks -/

namespace Spawner

variable {s : Spawner} {call argument last : Node} {callback : Callback} {first : Nat}
  {arguments lead : List Node}

theorem argumentOf_of_mem_callbacksOf (h : callback ∈ s.callbacksOf call) :
    ArgumentOf call callback.expr := by
  obtain ⟨argument, hargument, heq | heq⟩ := exists_argument_of_mem_callbacksOf h
  · exact ⟨argument, hargument, .inl heq⟩
  · obtain hself | ⟨hspread, hinner⟩ := spreadInner_cases argument
    · exact ⟨argument, hargument, .inl (heq.trans hself)⟩
    · exact ⟨argument, hargument, .inr ⟨hspread, heq ▸ hinner⟩⟩

theorem spreadInner_eq_self (h : argument.kind ≠ .variadicArgument) :
    spreadInner argument = argument :=
  if_neg h

theorem spreadInner_of_spreads {literal : Node} {elements : List Node}
    (h : Spreads argument literal elements) : spreadInner argument = literal := by
  rw [spreadInner, if_pos h.kind_argument, h.parts_argument]
  rfl

/-- Where the last argument is spread, it is the only variadic callback. -/
theorem variadicCallbacks_spread (h : argument.kind = .variadicArgument)
    (hfirst : first ≤ lead.length) :
    variadicCallbacks first (lead ++ [argument]) = [⟨spreadInner argument, none, true⟩] := by
  have hrest : (lead ++ [argument]).drop first = lead.drop first ++ [argument] :=
    List.drop_append_of_le_length hfirst
  simp [variadicCallbacks, hrest, h]

/-- Where no argument is spread, each one from a position on is a callback. -/
theorem variadicCallbacks_plain (hlast : arguments.getLast? = some last)
    (h : last.kind ≠ .variadicArgument) (hfirst : first < arguments.length) :
    variadicCallbacks first arguments =
      (arguments.drop first).zipIdx.map fun (expr, i) => ⟨expr, some (first + i + 1), false⟩ := by
  have hrest : (arguments.drop first).getLast? = some last := by
    rw [List.getLast?_drop, if_neg (by omega), hlast]
  simp [variadicCallbacks, hrest, h]

end Spawner

/-! ### Verdicts -/

namespace Resolution

variable {r : Resolution} {carriers : Carriers} {literal : Node}

/-- Graph and search do not differ on a function literal: unless it declares a context, something
makes the graph pass it just when something in its own statements does, or they name a context that
is of the package or declared inside the literal. -/
def JudgedAlike (r : Resolution) (carriers : Carriers) (literal : Node) : Prop :=
  declaresToken r.imports carriers literal = true ∨
    ((∃ n, r.IsReason carriers literal n) ↔
      (∃ n, r.IsReason carriers literal n ∧ ¬ literal.OutsideStatements n) ∨
        r.NamesInnerToken carriers literal)

/-- The search passes a function literal whose own statements name an inner context. -/
theorem NamesInnerToken.passes (h : r.NamesInnerToken carriers literal) (hr : r.Grounded)
    (hmem : literal ∈ r.root.preorder) : (captureTest r carriers).function literal = true := by
  obtain ⟨body, hbody, n, hn, hkind, hout, i, b, t, hb, htype, htoken, -⟩ := h
  have hname : isTokenName r carriers body n = true := by simp [isTokenName, hb, htype, htoken]
  exact (captureTest_literal_iff hr hmem hbody).2 (.inr ⟨n, hn, .inl ⟨hkind, hname⟩, hout⟩)

/-- Where graph and search do not differ, the verdict of the graph is that of the search. -/
theorem JudgedAlike.traceCapture_eq {g : CaptureGraph} (h : r.JudgedAlike carriers literal)
    (hr : r.Grounded) (hg : CaptureGraph.build r = some g) (hmem : literal ∈ r.root.preorder)
    (hkind : literal.kind = .funcLiteral) : traceCapture (some g) r carriers literal =
      if (captureTest r carriers).function literal then .satisfied else .unsatisfied := by
  obtain ⟨htrace, hreaches⟩ | ⟨htrace, hreaches⟩ := traceCapture_literal carriers hr hg hmem hkind
  · rw [htrace, if_pos]
    obtain hdeclares | hreason := reachesToken_iff.1 hreaches
    · exact Bool.or_eq_true_iff.2 (.inl hdeclares)
    · obtain hdeclares | halike := h
      · exact Bool.or_eq_true_iff.2 (.inl hdeclares)
      · obtain ⟨n, hn, hown⟩ | hinner := halike.1 hreason
        · by_contra hfails
          exact hown (outsideStatements_of_isReason hr hmem hkind (Bool.eq_false_iff.2 hfails) hn)
        · exact hinner.passes hr hmem
  · rw [htrace, if_neg]
    intro hpasses
    obtain ⟨hdeclares, hreason⟩ := not_or.1 (mt reachesToken_iff.2 hreaches)
    have hinner := namesInnerToken_of_unsatisfied hr hg hmem hkind hpasses htrace
    exact hreason ((h.resolve_left hdeclares).2 (.inr hinner))

end Resolution

/-- In a literal of function literals each one is tested. -/
theorem Search.search_collection_literal {V : Type} [Verdict V] {r : Resolution}
    {test : ClosureTest V} {depth : Nat} {literal type body site : Node} {visited : List Nat}
    (h : IsLiteralOf literal type body) :
    search r test (depth + 2) (.collection none) literal site visited =
      Verdict.all ((body.parts.map element).map test.function) := by
  have hbare : literal.bare = literal := bare_eq_self (by simp [h.isComposite])
  have hvalues : ∀ es : List Node, (∀ e ∈ es, e.kind = .literalElement) →
      es.filterMap elementValue? = es.map element := fun es hes => by
    rw [← List.filterMap_eq_map]
    exact List.filterMap_congr fun e he => by simp [elementValue?, hes e he]
  have hanswers : ∀ value ∈ body.parts.map element,
      search r test (depth + 1) .closure value literal visited = test.function value := by
    intro value hvalue
    obtain ⟨e, he, rfl⟩ := List.mem_map.1 hvalue
    have hliteral := (h.elements e he).2.2
    have hself : e.element.bare = e.element := bare_eq_self (by simp [hliteral])
    exact (search_closure_literal (hself.symm ▸ hliteral)).trans (by rw [hself])
  calc search r test (depth + 2) (.collection none) literal site visited
      = collectionStep r (search r test (depth + 1)) none literal site visited := rfl
    _ = Verdict.all ((body.parts.map element).map fun value =>
          search r test (depth + 1) .closure value literal visited) := by
        simp only [collectionStep, hbare, h.isComposite, h.child?_body,
          hvalues _ fun e he => (h.elements e he).1, Goal.ofElement]
    _ = Verdict.all ((body.parts.map element).map test.function) := by
      rw [List.map_congr_left hanswers]

namespace Inspection

variable {i : Inspection} {site : SpawnSite} {callback : Callback} {call : Node}

/-- A function literal as a callback is judged by what it mentions. -/
theorem callbackUsesToken_literal (hr : i.resolution.Grounded) (hgraph : i.HasOwnGraph)
    (hconstructor : site.spawner.constructor = none) (hspread : callback.spread = false)
    (hmem : callback.expr ∈ i.resolution.root.preorder) (hkind : callback.expr.kind = .funcLiteral)
    (halike : i.graph.isSome = true → i.resolution.JudgedAlike i.settings.carriers callback.expr) :
    i.callbackUsesToken site callback call =
      (captureTest i.resolution i.settings.carriers).function callback.expr := by
  have hplain : isPlain site callback = true := by simp [isPlain, hspread, hconstructor]
  have hbare : callback.expr.bare = callback.expr := bare_eq_self (by simp [hkind])
  unfold callbackUsesToken trace
  rw [if_pos hplain]
  cases hg : i.graph with
  | none =>
    have hsearch : Search.search i.resolution (captureTest i.resolution i.settings.carriers)
        Search.maxDepth .closure callback.expr call [] =
          (captureTest i.resolution i.settings.carriers).function callback.expr.bare :=
      Search.search_closure_literal (hbare.symm ▸ hkind)
    rw [hbare] at hsearch
    simpa [traceCapture, Search.callback, hspread, hconstructor, Search.Goal.ofElement,
      Search.maxDepth] using hsearch
  | some g =>
    have hbuild : CaptureGraph.build i.resolution = some g := by
      obtain hnone | hown := hgraph
      · cases hnone.symm.trans hg
      · exact hown.symm.trans hg
    rw [(halike (by rw [hg]; rfl)).traceCapture_eq hr hbuild hmem hkind]
    cases (captureTest i.resolution i.settings.carriers).function callback.expr <;> rfl

/-- A literal in the place of a single callback is not followed. -/
theorem callbackUsesToken_composite (hspread : callback.spread = false)
    (hkind : callback.expr.kind = .compositeLiteral) :
    i.callbackUsesToken site callback call = true := by
  have hbare : callback.expr.bare = callback.expr := bare_eq_self (by simp [hkind])
  have htrace : i.trace callback.expr = .indeterminate := by
    simp [trace, traceCapture, CaptureGraph.locate, Resolution.functionOf, hbare, hkind]
  have hsearch : ∀ goal, goal = .ofElement site.spawner.constructor →
      Search.search i.resolution (captureTest i.resolution i.settings.carriers) Search.maxDepth goal
        callback.expr call [] = true := by
    rintro goal rfl
    cases site.spawner.constructor <;>
      simp [Search.Goal.ofElement, Search.maxDepth, Search.search, Search.closureStep,
        Search.taskStep, hbare, hkind, Verdict.assumed]
  unfold callbackUsesToken
  rw [htrace, ite_self]
  simpa [Search.callback, hspread] using hsearch _ rfl

/-- A spread literal of function literals is judged by what each one mentions. -/
theorem callbackUsesToken_spread {argument : Node} {elements : List Node}
    (h : Spreads argument callback.expr elements) (hconstructor : site.spawner.constructor = none)
    (hspread : callback.spread = true) : i.callbackUsesToken site callback call =
      elements.all (captureTest i.resolution i.settings.carriers).function := by
  obtain ⟨type, body, his, rfl⟩ := h.exists_literal
  have hplain : isPlain site callback = false := by simp [isPlain, hspread]
  unfold callbackUsesToken Search.callback
  rw [if_neg (by simp [hplain]), if_pos hspread, hconstructor]
  calc Search.search i.resolution _ Search.maxDepth (.collection none) callback.expr call []
      = Verdict.all
          ((body.parts.map element).map (captureTest i.resolution i.settings.carriers).function) :=
        Search.search_collection_literal his
    _ = _ := by rw [Verdict.all_eq_all, List.all_map, Function.id_comp]

/-! ### Findings -/

/-- A propagation finding shows the span of a node. -/
def Flags (i : Inspection) (n : Node) : Prop :=
  ∃ f ∈ i.report .empty, f.checker.kind = .propagation ∧ f.span = n.span

/-- A spawn site at which closures that use no context are reported. -/
structure Watches (i : Inspection) (site : SpawnSite) (call : Node) : Prop where
  inTokenScope : i.InTokenScope call
  propagation : site.spawner.checker.kind = .propagation
  enabled : i.settings.checkers.has site.spawner.checker = true

theorem mem_report_empty_iff {f : Finding} : f ∈ i.report .empty ↔ f ∈ i.findings := by
  rw [report_of_directives rfl, mem_inReportOrder]

/-- A watched callback that uses no context is flagged. -/
theorem flags_of_watches (hcall : call ∈ i.resolution.root.preorder)
    (hkind : call.kind = .callExpression)
    (hsite : SpawnSite.ofCall i.spawners i.resolution call = some site) (h : i.Watches site call)
    (hcallback : callback ∈ site.callbacks)
    (huses : i.callbackUsesToken site callback call = false) : i.Flags callback.expr := by
  obtain ⟨scope, hscope⟩ := Option.isSome_iff_exists.1 h.inTokenScope
  refine ⟨⟨site.spawner.checker, callback.expr.span, site.spawner.checker.propagationMessage
    site.spawner.label scope.names callback.ordinal⟩, mem_report_empty_iff.2
      (List.mem_flatMap.2 ⟨call, hcall, ?_⟩), h.propagation, rfl⟩
  have hfindings : i.siteFindings call =
      site.callbacks.flatMap (i.callbackFindings scope.names site call) := by
    simp [siteFindings, isSite, hkind, hscope, callFindings, hsite]
  rw [hfindings]
  refine List.mem_flatMap.2 ⟨callback, hcallback, List.mem_append_left _ ?_⟩
  simp [h.enabled, huses]

/-- What is found about a callback comes from its own site. -/
theorem flags_iff (wf : i.resolution.root.WellFormed) (hcall : call ∈ i.resolution.root.preorder)
    (hkind : call.kind = .callExpression)
    (hsite : SpawnSite.ofCall i.spawners i.resolution call = some site)
    (hcallback : callback ∈ site.callbacks) (hspread : callback.expr.kind ≠ .variadicArgument)
    (hnonempty : callback.expr.start < callback.expr.stop) :
    i.Flags callback.expr ↔ i.Watches site call ∧ ∃ other ∈ site.callbacks,
      other.expr = callback.expr ∧ i.callbackUsesToken site other call = false := by
  constructor
  · rintro ⟨f, hf, hpropagation, hspan⟩
    have hderive : f.checker ≠ .derive := fun h => by
      rw [h] at hpropagation
      cases hpropagation
    have hargument := SpawnSite.isArgument wf hcall hsite hcallback
    have hsubject : IsSubject i.resolution.root callback.expr :=
      ⟨hargument.mem_preorder, .inr hargument⟩
    obtain ⟨n, hn, h⟩ := List.mem_flatMap.1 (mem_report_empty hf)
    obtain ⟨scope, hscope, ⟨hgo, h⟩ | ⟨hncall, found, hfound, other, hother, h⟩⟩ :=
      mem_siteFindings h
    · -- a `go` statement is no argument
      obtain ⟨_, _, -, ⟨-, hnspan, -⟩ | h⟩ := mem_goFindings h
      · have heq := IsSubject.eq_of_span wf hsubject ⟨hn, .inl hgo⟩ hspread (by simp [hgo])
          (hspan.symm.trans hnspan) hnonempty
        have hplain := hargument.isPlain wf
        rw [heq, hgo] at hplain
        cases hplain
      · exact absurd h hderive
    · have henabled := has_of_mem_callbackFindings h
      obtain ⟨hchecker, hospan, huses⟩ | h := mem_callbackFindings h
      · have hotherArgument := SpawnSite.isArgument wf hn hfound hother
        have hcondemned : i.Condemns n other.expr := .inr ⟨found, other, n, rfl, huses⟩
        have hotherSpread : other.expr.kind ≠ .variadicArgument := fun hvariadic =>
          not_condemns_of_variadicArgument hvariadic hcondemned
        have heq :=
          IsSubject.eq_of_span wf hsubject ⟨hotherArgument.mem_preorder, .inr hotherArgument⟩
            hspread hotherSpread (hspan.symm.trans hospan) hnonempty
        rw [(SpawnSite.spawner_of_ofCall hfound).2] at hother
        rw [(SpawnSite.spawner_of_ofCall hsite).2] at hcallback
        obtain rfl : call = n :=
          ArgumentOf.call_eq wf hcall hn (Spawner.argumentOf_of_mem_callbacksOf hcallback)
            (heq ▸ Spawner.argumentOf_of_mem_callbacksOf hother)
        obtain rfl := Option.some.inj (hsite.symm.trans hfound)
        rw [hchecker] at hpropagation henabled
        exact ⟨⟨Option.isSome_iff_exists.2 ⟨scope, hscope⟩, hpropagation, henabled⟩, other,
          (SpawnSite.spawner_of_ofCall hsite).2 ▸ hother, heq.symm, huses⟩
      · exact absurd h hderive
  · rintro ⟨hwatches, other, hother, heq, huses⟩
    exact heq ▸ flags_of_watches hcall hkind hsite hwatches hother huses

end Inspection

/-! ### Spread calls -/

/-- A call spreads a literal of function literals after some leading arguments; its counterpart in
another file has the function literals as arguments of their own. -/
structure Unspread (ps : List (Node × Node)) (call call' list literal : Node)
    (lead elements elements' : List Node) : Prop where
  isCall : call.kind = .callExpression
  counterpart : (call, call') ∈ ps
  child?_arguments : call.child? .arguments = some list
  spreads : ∃ argument, list.parts = lead ++ [argument] ∧ Spreads argument literal elements
  arguments : ∃ lead', call'.arguments = lead' ++ elements' ∧
    List.Forall₂ (fun n n' => (n, n') ∈ ps) lead lead'
  literals : List.Forall₂ (fun e e' => (e, e') ∈ ps) elements elements'
  nonempty : elements ≠ []

namespace Unspread

variable {ps : List (Node × Node)} {call call' list literal : Node}
  {lead elements elements' : List Node} {spawner : Spawner} {callback : Callback} {first : Nat}

variable (h : Unspread ps call call' list literal lead elements elements')

include h

theorem kind_elements {e : Node} (he : e ∈ elements) : e.kind = .funcLiteral := by
  obtain ⟨argument, -, hspreads⟩ := h.spreads
  obtain ⟨type, body, his, rfl⟩ := hspreads.exists_literal
  obtain ⟨wrapped, hwrapped, rfl⟩ := List.mem_map.1 he
  exact (his.elements wrapped hwrapped).2.2

theorem kind_elements' (L : Likeness fun n n' => (n, n') ∈ ps) {e' : Node} (he' : e' ∈ elements') :
    e'.kind = .funcLiteral := by
  obtain ⟨e, he, hp⟩ := rel_mem_right h.literals he'
  exact (L.kind hp).trans (h.kind_elements he)

/-- The literal is the only variadic callback. -/
theorem mem_callbacksOf (hfirst : spawner.variadicFrom = some first) (hlead : first ≤ lead.length) :
    ⟨literal, none, true⟩ ∈ spawner.callbacksOf call := by
  obtain ⟨argument, hparts, hspreads⟩ := h.spreads
  have harguments : call.arguments = lead ++ [argument] := by
    simp [Node.arguments, h.child?_arguments, hparts]
  rw [Spawner.callbacksOf, hfirst, harguments]
  refine List.mem_append_right _ ?_
  dsimp only
  rw [Spawner.variadicCallbacks_spread hspreads.kind_argument hlead,
    Spawner.spreadInner_of_spreads hspreads]
  exact List.mem_singleton_self _

/-- In the other file each argument from a position on is a callback. -/
theorem variadicCallbacks_eq (L : Likeness fun n n' => (n, n') ∈ ps) (hlead : first ≤ lead.length) :
    Spawner.variadicCallbacks first call'.arguments =
      (call'.arguments.drop first).zipIdx.map fun (expr, i) =>
        ⟨expr, some (first + i + 1), false⟩ := by
  obtain ⟨lead', harguments, hleads⟩ := h.arguments
  have hne : elements' ≠ [] :=
    fun hnil => h.nonempty (List.forall₂_nil_right_iff.1 (hnil ▸ h.literals))
  have hlast : call'.arguments.getLast? = some (elements'.getLast hne) := by
    rw [harguments, List.getLast?_append_of_ne_nil _ hne, List.getLast?_eq_some_getLast hne]
  have hkind := h.kind_elements' L (List.getLast_mem hne)
  have hlength := hleads.length_eq
  have hpositive := List.length_pos_iff.2 hne
  refine Spawner.variadicCallbacks_plain hlast (by simp [hkind]) ?_
  rw [harguments, List.length_append]
  omega

/-- In the other file no callback is spread, and each function literal is one. -/
theorem callbacksOf_plain (L : Likeness fun n n' => (n, n') ∈ ps)
    (hfirst : spawner.variadicFrom = some first) (hlead : first ≤ lead.length) :
    (∀ callback ∈ spawner.callbacksOf call', callback.spread = false) ∧
      ∀ e' ∈ elements', ∃ callback ∈ spawner.callbacksOf call', callback.expr = e' := by
  have hvariadic := h.variadicCallbacks_eq L hlead
  unfold Spawner.callbacksOf
  rw [hfirst]
  dsimp only
  rw [hvariadic]
  refine ⟨fun callback hcallback => ?_, fun e' he' => ?_⟩
  · obtain hcallback | hcallback := List.mem_append.1 hcallback
    · obtain ⟨_, -, rfl⟩ := List.mem_map.1 hcallback
      rfl
    · obtain ⟨_, -, rfl⟩ := List.mem_map.1 hcallback
      rfl
  · obtain ⟨lead', harguments, hleads⟩ := h.arguments
    have hmem : e' ∈ call'.arguments.drop first := by
      rw [harguments, List.drop_append_of_le_length (hleads.length_eq ▸ hlead)]
      exact List.mem_append_right _ he'
    obtain ⟨k, hk⟩ := List.mem_iff_getElem?.1 hmem
    exact ⟨⟨e', some (first + k + 1), false⟩,
      List.mem_append_right _
        (List.mem_map.2 ⟨(e', k), List.mem_zipIdx_iff_getElem?.2 hk, rfl⟩), rfl⟩

/-- The elements stand in the list, below the argument that spreads them. -/
theorem mem_inner_list {e : Node} (he : e ∈ elements) : literal ∈ list.inner ∧
    e ∈ literal.inner := by
  obtain ⟨argument, hparts, hspreads⟩ := h.spreads
  obtain ⟨type, body, his, rfl⟩ := hspreads.exists_literal
  obtain ⟨wrapped, hwrapped, rfl⟩ := List.mem_map.1 he
  have hpart : ∀ {n m : Node} {ms : List Node}, n.parts = ms → m ∈ ms → m ∈ n.inner := fun hms hm =>
    inner_of_mem_filter (hms ▸ hm)
  have hargument : argument ∈ list.inner := hpart hparts (by simp)
  have hliteral : literal ∈ argument.inner :=
    hpart hspreads.parts_argument (List.mem_singleton_self _)
  have hbody : body ∈ literal.inner := hpart his.parts_eq (by simp)
  have helement : wrapped.element ∈ wrapped.inner :=
    hpart (his.elements wrapped hwrapped).2.1 (List.mem_singleton_self _)
  exact ⟨inner_trans hargument hliteral, inner_trans hbody
    (inner_trans (inner_of_mem_filter hwrapped) helement)⟩

theorem list_mem {root : Node} (hcall : call ∈ root.preorder) : list ∈ root.preorder :=
  preorder_trans hcall (preorder_of_child? h.child?_arguments)

section Sides

variable {i : Inspection} {site : SpawnSite} (hr : i.resolution.Grounded)

include hr

/-- What is found about the literal. -/
theorem flags_literal_iff (hcall : call ∈ i.resolution.root.preorder)
    (hsite : SpawnSite.ofCall i.spawners i.resolution call = some site)
    (hconstructor : site.spawner.constructor = none)
    (hfirst : site.spawner.variadicFrom = some first) (hlead : first ≤ lead.length) :
    i.Flags literal ↔ i.Watches site call ∧
      ∃ e ∈ elements, (captureTest i.resolution i.settings.carriers).function e = false := by
  have wf := hr.wellFormed
  obtain ⟨argument, -, hspreads⟩ := h.spreads
  have hcomposite : literal.kind = .compositeLiteral := by
    obtain ⟨type, body, his, -⟩ := hspreads.exists_literal
    exact his.isComposite
  have hcallbacks := (SpawnSite.spawner_of_ofCall hsite).2
  have hmem : ⟨literal, none, true⟩ ∈ site.callbacks := hcallbacks ▸ h.mem_callbacksOf hfirst hlead
  -- the literal covers some text, so its span tells it from all other subjects
  have hnonempty : literal.start < literal.stop := by
    obtain ⟨e, es, heq⟩ := List.exists_cons_of_ne_nil h.nonempty
    have he : e ∈ elements := heq ▸ List.mem_cons_self ..
    obtain ⟨hliteral, hin⟩ := h.mem_inner_list he
    have hfile := preorder_trans (h.list_mem hcall) (preorder_of_inner hliteral)
    have hplace := wf.start_le hfile (preorder_of_inner hin)
    have hlong :=
      (wf.of_mem (preorder_trans hfile (preorder_of_inner hin))).start_lt_stop_of_literal
        (h.kind_elements he)
    omega
  rw [Inspection.flags_iff wf hcall h.isCall hsite hmem (by simp [hcomposite]) hnonempty]
  refine and_congr_right fun _ => ⟨?_, ?_⟩
  · rintro ⟨other, -, heq, huses⟩
    obtain rfl : other.expr = literal := heq
    cases hspread : other.spread with
    | false => cases (Inspection.callbackUsesToken_composite hspread hcomposite).symm.trans huses
    | true =>
      rw [Inspection.callbackUsesToken_spread hspreads hconstructor hspread] at huses
      simpa using huses
  · intro hfails
    refine ⟨_, hmem, rfl, ?_⟩
    rw [Inspection.callbackUsesToken_spread hspreads hconstructor rfl]
    simpa using hfails

/-- What is found about a function literal in the other file. -/
theorem flags_element_iff (L : Likeness fun n n' => (n, n') ∈ ps) (hgraph : i.HasOwnGraph)
    (hcall : call' ∈ i.resolution.root.preorder)
    (hsite : SpawnSite.ofCall i.spawners i.resolution call' = some site)
    (hconstructor : site.spawner.constructor = none)
    (hfirst : site.spawner.variadicFrom = some first) (hlead : first ≤ lead.length) {e' : Node}
    (he' : e' ∈ elements')
    (halike : i.graph.isSome = true → i.resolution.JudgedAlike i.settings.carriers e') :
    i.Flags e' ↔ i.Watches site call' ∧
      (captureTest i.resolution i.settings.carriers).function e' = false := by
  have wf := hr.wellFormed
  have hcallbacks := (SpawnSite.spawner_of_ofCall hsite).2
  obtain ⟨hplain, hexists⟩ := h.callbacksOf_plain L hfirst hlead
  obtain ⟨callback, hcallback, rfl⟩ := hexists e' he'
  rw [← hcallbacks] at hplain hcallback
  have hkind := h.kind_elements' L he'
  have hfile := (SpawnSite.isArgument wf hcall hsite hcallback).mem_preorder
  have huses : ∀ other ∈ site.callbacks, other.expr = callback.expr →
      i.callbackUsesToken site other call' =
        (captureTest i.resolution i.settings.carriers).function callback.expr :=
          fun other hother heq => by
    rw [← heq] at hfile hkind halike ⊢
    exact Inspection.callbackUsesToken_literal hr hgraph hconstructor
      (hplain other hother) hfile hkind halike
  rw [Inspection.flags_iff wf hcall ((L.kind h.counterpart).trans h.isCall) hsite hcallback
    (by simp [hkind]) ((wf.of_mem hfile).start_lt_stop_of_literal hkind)]
  refine and_congr_right fun _ => ⟨?_, fun hfails => ⟨callback, hcallback, rfl, ?_⟩⟩
  · rintro ⟨other, hother, heq, hfails⟩
    rwa [huses other hother heq] at hfails
  · rwa [huses callback hcallback rfl]

end Sides

/-- The callbacks of the call are the literal alone, when the leading arguments hold none. -/
theorem callbacks_literal (hcallbacks : ∀ k ∈ spawner.callbacks, lead.length ≤ k)
    (hfirst : spawner.variadicFrom = some lead.length)
    (hcallback : callback ∈ spawner.callbacksOf call) : callback.expr = literal := by
  obtain ⟨argument, hparts, hspreads⟩ := h.spreads
  have harguments : call.arguments = lead ++ [argument] := by
    simp [Node.arguments, h.child?_arguments, hparts]
  rw [Spawner.callbacksOf, hfirst, harguments] at hcallback
  obtain hcallback | hcallback := List.mem_append.1 hcallback
  · obtain ⟨expr, hexpr, rfl⟩ := List.mem_map.1 hcallback
    obtain ⟨k, hk, hget⟩ := List.mem_filterMap.1 hexpr
    rw [List.getElem?_append_right (hcallbacks k hk)] at hget
    obtain rfl : expr = argument := List.mem_singleton.1 (List.mem_of_getElem? hget)
    exact Spawner.spreadInner_of_spreads hspreads
  · dsimp only at hcallback
    rw [Spawner.variadicCallbacks_spread hspreads.kind_argument (Nat.le_refl _)] at hcallback
    rw [List.mem_singleton.1 hcallback]
    exact Spawner.spreadInner_of_spreads hspreads

/-- The callbacks of the call in the other file are the function literals, when the leading
arguments hold none. -/
theorem callbacks_elements (L : Likeness fun n n' => (n, n') ∈ ps)
    (hcallbacks : ∀ k ∈ spawner.callbacks, lead.length ≤ k)
    (hfirst : spawner.variadicFrom = some lead.length)
    (hcallback : callback ∈ spawner.callbacksOf call') : callback.expr ∈ elements' := by
  have hvariadic := h.variadicCallbacks_eq L (Nat.le_refl _)
  obtain ⟨lead', harguments, hleads⟩ := h.arguments
  have hlength := hleads.length_eq
  rw [Spawner.callbacksOf, hfirst] at hcallback
  dsimp only at hcallback
  rw [hvariadic, harguments] at hcallback
  obtain hcallback | hcallback := List.mem_append.1 hcallback
  · obtain ⟨expr, hexpr, rfl⟩ := List.mem_map.1 hcallback
    obtain ⟨k, hk, hget⟩ := List.mem_filterMap.1 hexpr
    rw [List.getElem?_append_right (hlength ▸ hcallbacks k hk)] at hget
    have hmem := List.mem_of_getElem? hget
    rwa [Spawner.spreadInner_eq_self (by simp [h.kind_elements' L hmem])]
  · obtain ⟨⟨expr, k⟩, hexpr, rfl⟩ := List.mem_map.1 hcallback
    have hmem := List.fst_mem_of_mem_zipIdx hexpr
    rwa [hlength, List.drop_left] at hmem

end Unspread

/-- A call whose last argument is spread, with a counterpart whose last argument is a function
literal. -/
theorem exists_unspread {R : Label → Label → Prop} {respelled : Label → Prop}
    {ps : List (Node × Node)} {ns ns' : List Node} {call call' list argument last : Node}
    (haligned : Aligned R respelled ns ns' ps) (hR : ∀ l l', R l l' → l.Like l')
    (hp : (call, call') ∈ ps) (hkind : call.kind = .callExpression)
    (hlist : call.child? .arguments = some list) (hargument : list.parts.getLast? = some argument)
    (hspread : argument.kind = .variadicArgument) (hlast : call'.arguments.getLast? = some last)
    (hliteral : last.kind = .funcLiteral) (hlength : list.parts.length ≤ call'.arguments.length) :
    ∃ literal lead elements elements', Unspread ps call call' list literal lead
      elements elements' := by
  have L := haligned.likeness hR
  obtain ⟨hc, -⟩ | ⟨found, list', hc, hc', hlists⟩ := rel_cases (L.child? hp .arguments)
  · cases hc.symm.trans hlist
  obtain rfl := Option.some.inj (hc.symm.trans hlist)
  have harguments : call'.arguments = list'.parts := by simp [Node.arguments, hc']
  cases (haligned.counterparts hlists).2 with
  | same hchildren =>
    -- counterparts are of one kind
    have hparts : List.Forall₂ (fun n n' => (n, n') ∈ ps) found.parts list'.parts :=
      List.rel_filter (fun c c' hc => by dsimp only; rw [L.isPart hc]) hchildren
    have hends := rel_head? (List.rel_reverse hparts)
    rw [List.head?_reverse, List.head?_reverse, ← harguments, hargument, hlast] at hends
    cases hends with
    | some hends =>
      rw [L.kind hends, hspread] at hliteral
      cases hliteral
  | @spread argument' literal lead lead' elements elements' _ _ _ _ hparts hspreads hparts'
      hleads helements =>
    refine ⟨literal, lead, elements, elements', hkind, hp, hlist, ⟨argument', hparts, hspreads⟩,
      ⟨lead', harguments.trans hparts', hleads⟩, helements, ?_⟩
    rintro rfl
    rw [harguments, hparts, hparts', List.length_append, List.length_append, ← hleads.length_eq,
      ← helements.length_eq] at hlength
    exact absurd hlength (Nat.not_succ_le_self _)

/-- The first call of a file that spreads a literal which another file, alike but for this, spells
out. -/
def unspread? (fuel : Nat) (root root' : Node) : Option (List (Node × Node) × Node × Node × Node) :=
  root.preorder.findSome? fun call =>
    (call.child? .arguments).bind fun list =>
      if call.kind = .callExpression ∧
          (list.parts.getLast?.any (·.kind == .variadicArgument)) = true then
        (align Label.isLike (·.id == list.id) fuel [root] [root']).bind fun ps =>
          (ps.find? fun p => p.1.id == call.id && p.2.arguments.getLast?.any
              (·.kind == .funcLiteral) && list.parts.length ≤ p.2.arguments.length).map fun p =>
            (ps, call, p.2, list)
      else none

/-- What the computed search for two spellings gives is aligned and unspread. -/
theorem unspread_of_unspread? {fuel : Nat} {root root' call call' list : Node}
    {ps : List (Node × Node)} (hdistinct : root.Distinct)
    (h : unspread? fuel root root' = some (ps, call, call', list)) :
    Aligned Label.Like (·.id = list.id) [root] [root'] ps ∧
      ∃ literal lead elements elements', Unspread ps call call' list literal lead
        elements elements' := by
  obtain ⟨found, hfound, h⟩ := List.exists_of_findSome?_eq_some h
  obtain ⟨list', hlist, h⟩ := Option.bind_eq_some_iff.1 h
  split at h
  next hchecks =>
    obtain ⟨hkind, hspread⟩ := hchecks
    obtain ⟨ps', halign, h⟩ := Option.bind_eq_some_iff.1 h
    obtain ⟨⟨c, c'⟩, hfind, h⟩ := Option.map_eq_some_iff.1 h
    cases h
    have haligned : Aligned Label.Like (·.id = list.id) [root] [root'] ps :=
      aligned_of_align (fun _ _ => Label.like_of_isLike) (fun _ hid => eq_of_beq hid)
        (Aligned.nodup_of_distinct hdistinct) halign
    have hp := List.mem_of_find?_eq_some hfind
    have hlast := List.find?_some hfind
    simp only [Bool.and_eq_true, beq_iff_eq, decide_eq_true_eq, Option.any_eq_true] at hlast hspread
    obtain ⟨⟨hid, last, hlast, hliteral⟩, hlength⟩ := hlast
    obtain ⟨argument, hargument, hvariadic⟩ := hspread
    obtain rfl := hdistinct.eq_of_id (haligned.mem_root_left hp) hfound hid
    exact ⟨haligned, exists_unspread haligned (fun _ _ h => h) hp hkind hlist hargument hvariadic
      hlast hliteral hlength⟩
  next => cases h

/-! ### The two spellings -/

namespace Inspection

variable {ps : List (Node × Node)} {call call' list literal : Node}
  {lead elements elements' : List Node}

/-- Below the elements of the literal nothing is respelled. -/
theorem exact_element {R : Label → Label → Prop} {root root' : Node} (hfile : root.IsFile)
    (wf' : root'.WellFormed) (haligned : Aligned R (·.id = list.id) [root] [root'] ps)
    (hR : ∀ l l', R l l' → l.Like l')
    (h : Unspread ps call call' list literal lead elements elements') {e : Node}
    (he : e ∈ elements) :
    Resolution.Mirrors.Exact (haligned.correspondence hfile.wellFormed wf' hR hfile.kind) e := by
  intro a ha a' hp
  have L := haligned.likeness hR
  have hcall := haligned.mem_root_left h.counterpart
  obtain ⟨hliteral, hin⟩ := h.mem_inner_list he
  cases (haligned.counterparts hp).2 with
  | same hchildren =>
    exact List.rel_filter (fun c c' hc => by dsimp only; rw [L.isPart hc]) hchildren
  | spread hid =>
    -- the list would stand below itself
    have hinner : a ∈ list.inner :=
      inner_of_preorder hliteral (preorder_trans (preorder_of_inner hin) ha)
    have hlist := h.list_mem hcall
    obtain rfl := hfile.wellFormed.distinct.eq_of_id
      (preorder_trans hlist (preorder_of_inner hinner)) hlist hid
    exact absurd hinner not_inner_self

/-- Like calls are sites of the same spawner. -/
theorem ofCall_like {root root' : Node} {M : Correspondence root root'} {r r' : Resolution}
    {spawners : List Spawner} {site : SpawnSite} (hm : r.Mirrors M r') (hN : M.node call call')
    (h : SpawnSite.ofCall spawners r call = some site) :
    SpawnSite.ofCall spawners r' call' = some ⟨site.spawner, site.spawner.callbacksOf call'⟩ := by
  simp only [SpawnSite.ofCall, Option.bind_eq_bind, Option.bind_eq_some_iff, Option.pure_def,
    Option.some.injEq] at h ⊢
  obtain ⟨callee, hcallee, spawner, hfind, rfl⟩ := h
  obtain ⟨hc, -⟩ | ⟨c, c', hc, hc', hlike⟩ := rel_cases (M.like.child? hN .function)
  · cases hc.symm.trans hcallee
  obtain rfl := Option.some.inj (hc.symm.trans hcallee)
  exact ⟨c', hc', spawner, by rw [hm.find?_isCallee (M.like.bare hlike), hfind], rfl⟩

/-- Of inspections that mirror one another, one flags a spread literal just when the other flags one
of the function literals. -/
theorem flags_literal_iff_flags_element {i i' : Inspection} {root root' : Node}
    {M : Correspondence root root'} {site site' : SpawnSite} {first : Nat}
    (h : Unspread ps call call' list literal lead elements elements')
    (L : Likeness fun n n' => (n, n') ∈ ps) (hnode : ∀ n n', (n, n') ∈ ps → M.node n n')
    (hm : i.resolution.Mirrors M i'.resolution)
    (hexact : ∀ e ∈ elements, Resolution.Mirrors.Exact M e) (hr : i.resolution.Grounded)
    (hr' : i'.resolution.Grounded) (hsettings : i'.settings = i.settings) (hgraph : i'.HasOwnGraph)
    (hscope : i'.InTokenScope call' ↔ i.InTokenScope call)
    (hcall : call ∈ i.resolution.root.preorder) (hcall' : call' ∈ i'.resolution.root.preorder)
    (hsite : SpawnSite.ofCall i.spawners i.resolution call = some site)
    (hsite' : SpawnSite.ofCall i'.spawners i'.resolution call' = some site')
    (hspawner : site'.spawner = site.spawner) (hconstructor : site.spawner.constructor = none)
    (hfirst : site.spawner.variadicFrom = some first) (hlead : first ≤ lead.length)
    (halike : i'.graph.isSome = true → ∀ e' ∈ elements',
      i'.resolution.JudgedAlike i'.settings.carriers e') :
    i.Flags literal ↔ ∃ e' ∈ elements', i'.Flags e' := by
  have hwatches : i'.Watches site' call' ↔ i.Watches site call := by
    constructor
    · rintro ⟨hin, hpropagation, henabled⟩
      rw [hspawner] at hpropagation henabled
      exact ⟨hscope.1 hin, hpropagation, hsettings ▸ henabled⟩
    · rintro ⟨hin, hpropagation, henabled⟩
      rw [← hspawner] at hpropagation henabled
      exact ⟨hscope.2 hin, hpropagation, hsettings ▸ henabled⟩
  have helement := fun e' (he' : e' ∈ elements') =>
    h.flags_element_iff hr' L hgraph hcall' hsite' (by rw [hspawner, hconstructor])
      (by rw [hspawner, hfirst]) hlead he' fun hgraph => halike hgraph e' he'
  have htest : ∀ e ∈ elements, ∀ e', (e, e') ∈ ps →
      (captureTest i'.resolution i'.settings.carriers).function e' =
        (captureTest i.resolution i.settings.carriers).function e := fun e he e' hp => by
    rw [hsettings]
    exact hm.function_captureTest (hexact e he) (hnode e e' hp)
  rw [h.flags_literal_iff hr hcall hsite hconstructor hfirst hlead]
  constructor
  · rintro ⟨hwatch, e, he, hfails⟩
    obtain ⟨e', he', hp⟩ := rel_mem_left h.literals he
    exact ⟨e', he', (helement e' he').2 ⟨hwatches.2 hwatch, (htest e he e' hp).trans hfails⟩⟩
  · rintro ⟨e', he', hflags⟩
    obtain ⟨hwatch, hfails⟩ := (helement e' he').1 hflags
    obtain ⟨e, he, hp⟩ := rel_mem_right h.literals he'
    exact ⟨hwatches.1 hwatch, e, he, (htest e he e' hp).symm.trans hfails⟩

/-- Counterparts stand in a token scope alike. -/
theorem inTokenScope_like {respelled : Label → Prop} {settings : Settings} {root root' : Node}
    {marks marks' : List Nat} {n n' : Node} (hfile : root.IsFile) (wf' : root'.WellFormed)
    (haligned : Aligned Label.Like respelled [root] [root'] ps) (hp : (n, n') ∈ ps) :
    (ofTree settings root' marks').InTokenScope n' ↔
      (ofTree settings root marks).InTokenScope n := by
  have hR : ∀ l l', Label.Like l l' → l.Like l' := fun _ _ h => h
  have hm := Resolution.mirrors_of_aligned haligned hfile wf' hR
  have hscope := TokenScope.around_like haligned hfile.wellFormed wf' hR
    (Resolution.ofFile root).imports settings.carriers hp
  unfold InTokenScope ofTree
  dsimp only
  rw [hm.imports, Resolution.root_ofFile hfile.wellFormed, Resolution.root_ofFile wf']
  obtain ⟨hnone, hnone'⟩ | ⟨scope, scope', hsome, hsome', -⟩ := rel_cases hscope
  · rw [hnone, hnone']
  · rw [hsome, hsome']
    exact iff_of_true rfl rfl

/-- A spread literal stands for its elements. Two files differ in one call of a spawner with
variadic callbacks that are no tasks: the first spreads a literal of function literals, the second
has them as arguments. Wherever the graph of the second file does not differ from the search on
these, something is found about the literal just when something is found about one of the function
literals; and about the call just when about the other call, where the leading arguments hold no
callback. -/
theorem flags_spread_iff (settings : Settings) {root root' : Node} (hfile : root.IsFile)
    (hfile' : root'.IsFile) (marks marks' : List Nat) {site : SpawnSite} {first : Nat}
    (haligned : Aligned Label.Like (·.id = list.id) [root] [root'] ps)
    (h : Unspread ps call call' list literal lead elements elements')
    (hspawners : (ofTree settings root' marks').spawners = (ofTree settings root marks).spawners)
    (hsite : SpawnSite.ofCall (ofTree settings root marks).spawners
      (ofTree settings root marks).resolution call = some site)
    (hconstructor : site.spawner.constructor = none)
    (hfirst : site.spawner.variadicFrom = some first) (hlead : first ≤ lead.length)
    (halike : (ofTree settings root' marks').graph.isSome = true → ∀ e' ∈ elements',
      (ofTree settings root' marks').resolution.JudgedAlike settings.carriers e') :
    ((ofTree settings root marks).Flags literal ↔
        ∃ e' ∈ elements', (ofTree settings root' marks').Flags e') ∧
      (lead.length = first → (∀ k ∈ site.spawner.callbacks, lead.length ≤ k) →
        ((∃ callback ∈ site.spawner.callbacksOf call,
          (ofTree settings root marks).Flags callback.expr) ↔
            ∃ callback ∈ site.spawner.callbacksOf call',
              (ofTree settings root' marks').Flags callback.expr)) := by
  have hR : ∀ l l', Label.Like l l' → l.Like l' := fun _ _ h => h
  have L := haligned.likeness hR
  have hm := Resolution.mirrors_of_aligned haligned hfile hfile'.wellFormed hR
  have hcall : call ∈ (Resolution.ofFile root).root.preorder := by
    rw [Resolution.root_ofFile hfile.wellFormed]
    exact haligned.mem_root_left h.counterpart
  have hcall' : call' ∈ (Resolution.ofFile root').root.preorder := by
    rw [Resolution.root_ofFile hfile'.wellFormed]
    exact haligned.mem_root_right h.counterpart
  have hsite' : SpawnSite.ofCall (ofTree settings root' marks').spawners
      (Resolution.ofFile root') call' = some ⟨site.spawner, site.spawner.callbacksOf call'⟩ := by
    rw [hspawners]
    exact ofCall_like hm h.counterpart hsite
  have hiff : (ofTree settings root marks).Flags literal ↔
      ∃ e' ∈ elements', (ofTree settings root' marks').Flags e' :=
    flags_literal_iff_flags_element h L (fun _ _ hp => hp) hm
      (fun e he => exact_element hfile hfile'.wellFormed haligned hR h he)
      (Resolution.grounded_of_isFile hfile) (Resolution.grounded_of_isFile hfile') rfl
      (hasOwnGraph_ofTree ..)
      (inTokenScope_like hfile hfile'.wellFormed haligned h.counterpart) hcall hcall' hsite hsite'
      rfl hconstructor hfirst hlead halike
  refine ⟨hiff, fun heq hcallbacks => ?_⟩
  subst heq
  constructor
  · rintro ⟨callback, hcallback, hflags⟩
    rw [h.callbacks_literal hcallbacks hfirst hcallback] at hflags
    obtain ⟨e', he', hflags⟩ := hiff.1 hflags
    obtain ⟨callback', hcallback', rfl⟩ := (h.callbacksOf_plain L hfirst hlead).2 e' he'
    exact ⟨callback', hcallback', hflags⟩
  · rintro ⟨callback', hcallback', hflags⟩
    have he' := h.callbacks_elements L hcallbacks hfirst hcallback'
    exact ⟨_, h.mem_callbacksOf hfirst hlead, hiff.2 ⟨_, he', hflags⟩⟩

def spreadClosures : String :=
  "package p\nimport (\n\t\"context\"\n\t\"github.com/newmo-oss/gotask\"\n)\n" ++
    "func run(ctx context.Context) \x7b\n\tgotask.DoAllFns(ctx, []any\x7b" ++
    "func(ctx context.Context) \x7b use(ctx) \x7d, func() \x7b\x7d\x7d...)\n\x7d\n"

def separateClosures : String :=
  "package p\nimport (\n\t\"context\"\n\t\"github.com/newmo-oss/gotask\"\n)\n" ++
    "func run(ctx context.Context) \x7b\n\tgotask.DoAllFns(ctx, " ++
    "func(ctx context.Context) \x7b use(ctx) \x7d, func() \x7b\x7d)\n\x7d\n"

/-- A function literal without names is judged alike. -/
theorem judgedAlike_of_no_names {r : Resolution} {carriers : Carriers} {literal : Node}
    (h : ∀ n ∈ literal.preorder, n.kind ≠ .identifier ∧ n.kind ≠ .selectorExpression) :
    r.JudgedAlike carriers literal := by
  have hreason : ¬ ∃ n, r.IsReason carriers literal n := by
    rintro ⟨n, hn, ⟨hident, -⟩ | ⟨hselector, -⟩⟩
    · exact (h n hn).1 hident
    · exact (h n hn).2 hselector
  refine .inr (iff_of_false hreason ?_)
  rintro (⟨n, hn, -⟩ | ⟨body, hbody, n, hn, hident, -⟩)
  · exact hreason ⟨n, hn⟩
  · exact (h n (preorder_trans (preorder_of_child? hbody) hn)).1 hident

set_option maxRecDepth 4000 in
theorem flags_spread_iff_spreadClosures :
    let i := ofTree .standard (parse spreadClosures) []
    let i' := ofTree .standard (parse separateClosures) []
    ∃ ps call call' list literal lead elements elements' site,
      Aligned Label.Like (·.id = list.id) [parse spreadClosures] [parse separateClosures] ps ∧
      Unspread ps call call' list literal lead elements elements' ∧ i'.spawners = i.spawners ∧
      SpawnSite.ofCall i.spawners i.resolution call = some site ∧ site.spawner.constructor = none ∧
      site.spawner.variadicFrom = some lead.length ∧ i'.graph.isSome = true ∧
      (∀ e' ∈ elements', i'.resolution.JudgedAlike [] e') ∧ i.Flags literal ∧
        ∃ e' ∈ elements', i'.Flags e' := by
  intro i i'
  obtain ⟨hspawners, hgraph, hrun⟩ : i'.spawners = i.spawners ∧ i'.graph.isSome = true ∧
      ((unspread? 200 (parse spreadClosures) (parse separateClosures)).any
        fun (_, call, call', list) =>
        (SpawnSite.ofCall i.spawners i.resolution call).any (fun site =>
          site.spawner.constructor == none && site.spawner.variadicFrom == some 1) &&
        list.parts.length == 2 &&
        (call'.arguments.drop 1).all (fun e' => declaresToken i'.resolution.imports [] e' ||
          e'.preorder.all fun n => n.kind != .identifier && n.kind != .selectorExpression) &&
        (call'.arguments.drop 1).any fun e' => (i'.report .empty).any fun f =>
          f.checker.kind == .propagation && f.span == e'.span) = true := by
    decide +kernel
  simp only [Option.any_eq_true, Bool.and_eq_true, beq_iff_eq, List.all_eq_true, List.any_eq_true,
    Bool.or_eq_true, bne_iff_ne] at hrun
  obtain ⟨⟨ps, call, call', list⟩, hunspread,
    ⟨⟨⟨site, hsite, hconstructor, hfirst⟩, hlength⟩, halike⟩, last, hlast, f, hf, hflags⟩ := hrun
  obtain ⟨haligned, literal, lead, elements, elements', h⟩ :=
    unspread_of_unspread? (parse_wellFormed spreadClosures).distinct hunspread
  obtain ⟨argument, hparts, -⟩ := h.spreads
  obtain ⟨lead', harguments, hleads⟩ := h.arguments
  have hlead : lead.length = 1 := by
    rw [hparts, List.length_append] at hlength
    exact Nat.succ.inj hlength
  have helements : call'.arguments.drop 1 = elements' := by
    rw [harguments, ← hlead, hleads.length_eq, List.drop_left]
  rw [helements] at halike hlast
  have hjudged : ∀ e' ∈ elements', i'.resolution.JudgedAlike [] e' := fun e' he' =>
    (halike e' he').elim .inl judgedAlike_of_no_names
  have hflags : ∃ e' ∈ elements', i'.Flags e' := ⟨last, hlast, f, hf, hflags⟩
  have hiff :=
    (flags_spread_iff .standard (isFile_parse _) (isFile_parse _) [] [] haligned h hspawners hsite
      hconstructor hfirst (Nat.le_of_eq hlead.symm) fun _ => hjudged).1
  exact ⟨ps, call, call', list, literal, lead, elements, elements', site, haligned, h, hspawners,
    hsite, hconstructor, by rw [hfirst, hlead], hgraph, hjudged, hiff.2 hflags, hflags⟩

def spreadNested : String :=
  "package p\nimport (\n\t\"context\"\n\t\"github.com/newmo-oss/gotask\"\n)\n" ++
    "func run(ctx context.Context) \x7b\n\tgotask.DoAllFns(ctx, []func()\x7b" ++
    "func() \x7b func() \x7b use(ctx) \x7d() \x7d\x7d...)\n\x7d\n"

def separateNested : String :=
  "package p\nimport (\n\t\"context\"\n\t\"github.com/newmo-oss/gotask\"\n)\n" ++
    "func run(ctx context.Context) \x7b\n\tgotask.DoAllFns(ctx, " ++
    "func() \x7b func() \x7b use(ctx) \x7d() \x7d)\n\x7d\n"

set_option maxRecDepth 4000 in
/-- The spellings differ on a closure that only the graph passes. -/
theorem flags_spread_nested :
    let i := ofTree .standard (parse spreadNested) []
    let i' := ofTree .standard (parse separateNested) []
    ∃ ps call call' list literal lead elements elements' site,
      Aligned Label.Like (·.id = list.id) [parse spreadNested] [parse separateNested] ps ∧
      Unspread ps call call' list literal lead elements elements' ∧ i'.spawners = i.spawners ∧
      SpawnSite.ofCall i.spawners i.resolution call = some site ∧ site.spawner.constructor = none ∧
      site.spawner.variadicFrom = some lead.length ∧ i.Flags literal ∧ ¬ ∃ e' ∈ elements',
        i'.Flags e' := by
  intro i i'
  obtain ⟨hspawners, hreport, hrun⟩ : i'.spawners = i.spawners ∧ (i'.report .empty).length = 0 ∧
      ((unspread? 200 (parse spreadNested) (parse separateNested)).any fun (_, call, _, list) =>
        (SpawnSite.ofCall i.spawners i.resolution call).any (fun site =>
          site.spawner.constructor == none && site.spawner.variadicFrom == some 1) &&
            list.parts.length == 2 &&
        list.parts.all fun argument => argument.parts.all fun literal =>
          (i.report .empty).any fun f => f.checker.kind == .propagation && f.span ==
            literal.span) = true := by
    decide +kernel
  simp only [Option.any_eq_true, Bool.and_eq_true, beq_iff_eq, List.all_eq_true,
    List.any_eq_true] at hrun
  obtain ⟨⟨ps, call, call', list⟩, hunspread,
    ⟨⟨site, hsite, hconstructor, hfirst⟩, hlength⟩, hflags⟩ := hrun
  obtain ⟨haligned, literal, lead, elements, elements', h⟩ :=
    unspread_of_unspread? (parse_wellFormed spreadNested).distinct hunspread
  obtain ⟨argument, hparts, hspreads⟩ := h.spreads
  have hlead : lead.length = 1 := by
    rw [hparts, List.length_append] at hlength
    exact Nat.succ.inj hlength
  have hliteral : i.Flags literal :=
    hflags argument (by simp [hparts]) literal (by simp [hspreads.parts_argument])
  refine ⟨ps, call, call', list, literal, lead, elements, elements', site, haligned, h, hspawners,
    hsite, hconstructor, by rw [hfirst, hlead], hliteral, ?_⟩
  rintro ⟨e', -, f, hf, -⟩
  rw [List.eq_nil_of_length_eq_zero hreport] at hf
  cases hf

end Inspection

end Handoff
