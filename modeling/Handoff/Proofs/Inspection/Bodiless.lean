import Handoff.Proofs.Inspection.Literal
import Handoff.Proofs.Verdict.Tiers

/-!
# Functions without a body

The code of a function that is declared without a body is not in the file, and the search assumes
that it does what it has to. The capture graph has a unit for such a function nevertheless, with no
calls and with nothing but its signature to find a context in. So a goroutine or callback that runs
it is excused where no graph is asked, and is judged by the signature where one is.

## Main definitions

* `Inspection.Faults`: the verdicts that findings come from.
* `Inspection.Runs`: a closure that is a function of the file without a body.

## Main statement

* `Inspection.check_bodiless`: when there is no finding about a function without a body.
-/

namespace Handoff

open Syntax Node

variable {i : Inspection} {f : Finding} {n subject expr declaration : Node} {contexts : List String}

namespace Inspection

/-! ### Findings of any checker -/

/-- A closure is found not to use a context, or not to make the required calls at its start. -/
def Faults (i : Inspection) (subject expr : Node) : Prop :=
  i.Condemns subject expr ∨
    ∃ requirement, i.settings.checkedRequirement = some requirement ∧
      (i.goOutcome requirement expr subject ≠ .atStart ∨
        ∃ site callback call, callback.expr = expr ∧
          i.callbackOutcome requirement site callback call ≠ .atStart)

theorem mem_outcomeFinding {requirement : Requirement} {place : String} {outcome : Outcome}
    (h : f ∈ outcomeFinding requirement n place outcome) : f.span = n.span ∧
      outcome ≠ .atStart := by
  cases outcome <;> simp [outcomeFinding] at h <;> simp [h]

/-- A finding about a `go` statement is about its closure. -/
theorem faults_of_mem_goFindings (h : f ∈ i.goFindings contexts n) :
    ∃ call callee, spawnedCall n = some (call, callee) ∧ f.span = n.span ∧ i.Faults n callee := by
  unfold goFindings at h
  split at h
  next => cases h
  next call callee hspawned =>
    refine ⟨call, callee, hspawned, ?_⟩
    obtain h | h := List.mem_append.1 h
    · split at h
      next hfails =>
        obtain rfl := List.mem_singleton.1 h
        exact ⟨rfl, .inl (.inl (by simp_all))⟩
      next => cases h
    · split at h
      next requirement hchecked =>
        obtain ⟨hspan, houtcome⟩ := mem_outcomeFinding h
        exact ⟨hspan, .inr ⟨requirement, hchecked, .inl houtcome⟩⟩
      next => cases h

/-- A finding about a callback is about its expression. -/
theorem faults_of_mem_callbackFindings {site : SpawnSite} {callback : Callback} {call : Node}
    (h : f ∈ i.callbackFindings contexts site call callback) :
    f.span = callback.expr.span ∧ i.Faults callback.expr callback.expr := by
  obtain h | h := List.mem_append.1 h
  · split at h
    next hfails =>
      obtain rfl := List.mem_singleton.1 h
      exact ⟨rfl, .inl (.inr ⟨site, callback, call, rfl, by simp_all⟩)⟩
    next => cases h
  · split at h
    next requirement hchecked =>
      obtain ⟨hspan, houtcome⟩ := mem_outcomeFinding h
      exact ⟨hspan, .inr ⟨requirement, hchecked, .inr ⟨site, callback, call, rfl, houtcome⟩⟩⟩
    next => cases h

/-- Every finding shows the span of a subject whose closure is at fault. -/
theorem exists_faults_of_mem_findings (h : f ∈ i.findings) :
    ∃ subject expr, i.Spawns subject expr ∧ f.span = subject.span ∧ i.Faults subject expr := by
  obtain ⟨n, hn, h⟩ := List.mem_flatMap.1 h
  obtain ⟨scope, hscope, ⟨hgo, h⟩ | ⟨hcall, site, hsite, callback, hcallback, h⟩⟩ :=
    mem_siteFindings h
  · obtain ⟨call, callee, hspawned, hspan, hfaults⟩ := faults_of_mem_goFindings h
    exact ⟨n, callee, .goStatement hn hgo (Option.isSome_iff_exists.2 ⟨scope, hscope⟩)
      hspawned, hspan, hfaults⟩
  · obtain ⟨hspan, hfaults⟩ := faults_of_mem_callbackFindings h
    exact ⟨callback.expr, callback.expr,
      .callback hn hcall (Option.isSome_iff_exists.2 ⟨scope, hscope⟩) hsite
        hcallback, hspan, hfaults⟩

/-- A closure that the graph does not condemn, and that passes whatever it is searched for. -/
theorem not_faults_of_search (htrace : i.trace expr ≠ .unsatisfied)
    (houtcome : ∀ requirement outcome, i.settings.checkedRequirement = some requirement →
      traceOutcome i.graph i.resolution requirement expr = some outcome → outcome = .atStart)
    (hcapture : ∀ goal site, Search.search i.resolution
      (captureTest i.resolution i.settings.carriers) Search.maxDepth goal expr site [] = true)
    (hsearch : ∀ requirement goal site, Search.search i.resolution
      (outcomeTest i.resolution requirement) Search.maxDepth goal expr site [] = .atStart) :
        ¬ i.Faults subject expr := by
  rintro (h | ⟨requirement, hchecked, h | ⟨site, callback, call, rfl, h⟩⟩)
  · exact not_condemns_of_search htrace hcapture h
  · refine h ?_
    unfold goOutcome
    split
    next outcome htraced => exact houtcome requirement outcome hchecked htraced
    next => exact hsearch requirement .closure subject
  · refine h ?_
    unfold callbackOutcome
    dsimp only
    split
    next outcome htraced =>
      split at htraced
      · exact houtcome requirement outcome hchecked htraced
      · cases htraced
    next => exact hsearch requirement _ call

theorem not_faults_of_variadicArgument (h : expr.kind = .variadicArgument) :
    ¬ i.Faults subject expr := by
  have hfunction : i.resolution.functionOf expr = none := by
    simp [Resolution.functionOf, bare_eq_self, h]
  refine not_faults_of_search ?_ ?_ (fun goal site => Search.search_variadicArgument goal h)
    fun requirement goal site => Search.search_variadicArgument goal h
  · simp [trace, traceCapture, CaptureGraph.locate, hfunction]
  · intro requirement outcome _ htraced
    simp [traceOutcome, CaptureGraph.locate, hfunction] at htraced

/-! ### Functions without a body -/

/-- A closure is, without parentheses, the name of a function of the file that has no body. -/
structure Runs (r : Resolution) (expr declaration : Node) : Prop where
  kind : expr.bare.kind = .identifier
  declared : ∃ i b, r.bindingOf expr.bare = some (i, b) ∧ b.kind = .function declaration
  bodiless : declaration.child? .body = none

variable {r : Resolution} {carriers : Carriers}

namespace Runs

/-- The search assumes that a function without a body passes. -/
theorem search_eq {V : Type} [Verdict V] {test : ClosureTest V} {depth : Nat} {site : Node}
    (h : Runs r expr declaration) (htest : test.function declaration = Verdict.assumed)
    (goal : Search.Goal) :
    Search.search r test (depth + 1) goal expr site [] = Verdict.assumed := by
  obtain ⟨i, b, hb, hkind⟩ := h.declared
  cases goal with
  | closure =>
    simp [Search.search_identifier h.kind, Search.identifier, hb, hkind,
      BindingKind.declaration?, htest]
  | task wrapper => simp [Search.search, Search.taskStep, h.kind, Search.throughBinding, hb, hkind]
  | collection wrapper =>
    simp [Search.search, Search.collectionStep, h.kind, Search.throughBinding, hb, hkind]

theorem captureTest_eq (h : Runs r expr declaration) :
    (captureTest r carriers).function declaration = true := by
  simp [captureTest, h.bodiless]

theorem outcomeTest_eq (h : Runs r expr declaration) (requirement : Requirement) :
    (outcomeTest r requirement).function declaration = .atStart := by
  simp [outcomeTest, h.bodiless]

theorem functionOf_eq (h : Runs r expr declaration) : r.functionOf expr = some declaration := by
  obtain ⟨i, b, hb, hkind⟩ := h.declared
  simp [Resolution.functionOf, h.kind, hb, hkind]

/-- The graph has a unit for a function without a body, and no calls in it. -/
theorem exists_locate {g : CaptureGraph} (h : Runs r expr declaration) (carriers : Carriers)
    (hr : r.Grounded) (hg : CaptureGraph.build r = some g) :
    ∃ u, g.locate r expr = some u ∧ u.calls = [] ∧
      (u.usesToken r carriers = true ↔ r.ReachesToken carriers declaration) := by
  obtain ⟨i, b, hb, hkind⟩ := h.declared
  obtain ⟨hmem, hfunction⟩ := Search.candidate_of_function hr hb hkind
  obtain ⟨u, hu, humem, rfl⟩ := CaptureGraph.unitOf_function hr.wellFormed hg hmem
    (by obtain hf | hf := hfunction <;> rw [hf] <;> rfl)
  refine ⟨u, ?_, ?_, FunctionUnit.usesToken_iff hr.wellFormed humem⟩
  · simp [CaptureGraph.locate, h.functionOf_eq, hu]
  · simp [FunctionUnit.calls_eq humem, h.bodiless]

end Runs

/-- What the graph of an inspection says about a function without a body. -/
theorem trace_of_runs {g : CaptureGraph} (h : Runs i.resolution expr declaration)
    (hr : i.resolution.Grounded) (hgraph : i.HasOwnGraph) (hg : i.graph = some g) :
    (i.trace expr = .unsatisfied ↔ ¬ i.resolution.ReachesToken i.settings.carriers declaration) ∧
      ∀ requirement, traceOutcome i.graph i.resolution requirement expr =
        some (requirement.outcome i.resolution []) := by
  have hbuild : CaptureGraph.build i.resolution = some g := by
    obtain hnone | hbuild := hgraph
    · cases hnone.symm.trans hg
    · rw [← hbuild, hg]
  obtain ⟨u, hu, hcalls, huses⟩ := h.exists_locate i.settings.carriers hr hbuild
  constructor
  · rw [trace, hg, CaptureGraph.traceCapture_of_locate hu, ← huses]
    split <;> simp [*]
  · intro requirement
    simp [traceOutcome, hg, hu, hcalls]

/-- Where no graph is asked, or the graph passes it, a function without a body is excused. -/
theorem not_faults_of_runs (h : Runs i.resolution expr declaration) (hr : i.resolution.Grounded)
    (hgraph : i.HasOwnGraph)
    (hexcused : i.graph = none ∨ i.resolution.ReachesToken i.settings.carriers declaration ∧
      ∀ requirement, i.settings.checkedRequirement = some requirement →
        requirement.outcome i.resolution [] = .atStart) : ¬ i.Faults subject expr := by
  refine not_faults_of_search ?_ ?_ (fun goal site => h.search_eq h.captureTest_eq goal)
    fun requirement goal site => h.search_eq (h.outcomeTest_eq requirement) goal
  · obtain hnone | ⟨hreaches, -⟩ := hexcused
    · simp [trace, traceCapture, hnone]
    · cases hg : i.graph with
      | none => simp [trace, traceCapture, hg]
      | some g => simp [(trace_of_runs h hr hgraph hg).1, hreaches]
  · intro requirement outcome hchecked htraced
    cases hg : i.graph with
    | none => simp [traceOutcome, hg] at htraced
    | some g =>
      obtain hnone | ⟨-, hmet⟩ := hexcused
      · cases hnone.symm.trans hg
      · rw [(trace_of_runs h hr hgraph hg).2] at htraced
        rw [← Option.some.inj htraced, hmet requirement hchecked]

/-- A subject whose closure is a name covers some text, and is not what an argument spreads. -/
theorem Spawns.start_lt_stop_of_identifier (hspawns : i.Spawns subject expr)
    (wf : i.resolution.root.WellFormed) (hkind : expr.bare.kind = .identifier) :
    subject.start < subject.stop ∧ subject.kind ≠ .variadicArgument := by
  have hmem := preorder_trans (hspawns.expr_mem wf) (bare_mem_preorder expr)
  have hsubject := (hspawns.isSubject wf).1
  have hplace := wf.start_le hsubject hmem
  have hnonempty := wf.nonempty expr.bare (preorder_trans hsubject hmem) (by rw [hkind]; rfl)
  exact ⟨by omega, hspawns.kind_ne_variadicArgument wf
    (kind_ne_of_bare (by simp [hkind]) (by decide))⟩

/-- A finding over the text of a subject whose closure is a name is about that closure. -/
theorem faults_of_span (hspawns : i.Spawns subject expr) (wf : i.resolution.root.WellFormed)
    (hkind : expr.bare.kind = .identifier) (hf : f ∈ i.findings) (hspan : f.span = subject.span) :
    i.Faults subject expr := by
  obtain ⟨found, closure, hfound, hfspan, hfaults⟩ := exists_faults_of_mem_findings hf
  obtain ⟨hnonempty, hspread⟩ := hspawns.start_lt_stop_of_identifier wf hkind
  have hfoundSpread := hfound.kind_ne_variadicArgument wf fun hvariadic =>
    not_faults_of_variadicArgument hvariadic hfaults
  obtain rfl := IsSubject.eq_of_span wf (hspawns.isSubject wf) (hfound.isSubject wf) hspread
    hfoundSpread (hspan.symm.trans hfspan) hnonempty
  obtain rfl := hspawns.expr_eq hfound wf
  exact hfaults

/-- A `go` statement in a token scope whose closure the graph condemns is found at fault, unless an
argument passes a context. -/
theorem exists_mem_findings_of_trace {callee call : Node} (hmem : n ∈ i.resolution.root.preorder)
    (hgo : n.kind = .goStatement) (hscope : i.InTokenScope n)
    (hspawned : spawnedCall n = some (call, callee))
    (henabled : i.settings.checkers.has .goroutine = true)
    (hpasses : call.arguments.any i.passesToken = false) (htrace : i.trace callee = .unsatisfied) :
    ∃ f ∈ i.findings, f.checker = .goroutine ∧ f.span = n.span := by
  obtain ⟨scope, hscope⟩ := Option.isSome_iff_exists.1 hscope
  have huses : i.goUsesToken callee n = false := by simp [goUsesToken, htrace]
  refine ⟨⟨.goroutine, n.span, Checker.goroutine.propagationMessage "" scope.names none⟩,
    List.mem_flatMap.2 ⟨n, hmem, ?_⟩, rfl, rfl⟩
  simp [siteFindings, isSite, hgo, hscope, goFindings, hspawned, henabled, hpasses, huses]

/-- A `go` statement in a token scope whose closure does not make the required calls in the graph is
found at fault. -/
theorem exists_mem_findings_of_traceOutcome {callee call : Node} {requirement : Requirement}
    {outcome : Outcome} (hmem : n ∈ i.resolution.root.preorder) (hgo : n.kind = .goStatement)
    (hscope : i.InTokenScope n) (hspawned : spawnedCall n = some (call, callee))
    (hchecked : i.settings.checkedRequirement = some requirement)
    (htrace : traceOutcome i.graph i.resolution requirement callee = some outcome)
    (hmissing : outcome ≠ .atStart) : ∃ f ∈ i.findings, f.checker = .derive ∧ f.span = n.span := by
  obtain ⟨scope, hscope⟩ := Option.isSome_iff_exists.1 hscope
  have houtcome : i.goOutcome requirement callee n = outcome := by simp [goOutcome, htrace]
  obtain ⟨f, hf, hchecker, hspan⟩ : ∃ f ∈ outcomeFinding requirement n "goroutine" outcome,
      f.checker = .derive ∧ f.span = n.span := by
    cases outcome with
    | missing => exact ⟨_, List.mem_singleton_self _, rfl, rfl⟩
    | deferred => exact ⟨_, List.mem_singleton_self _, rfl, rfl⟩
    | atStart => exact absurd rfl hmissing
  refine ⟨f, List.mem_flatMap.2 ⟨n, hmem, ?_⟩, hchecker, hspan⟩
  simp [siteFindings, isSite, hgo, hscope, goFindings, hspawned, hchecked, houtcome, hf]

/-- Nothing is reported about a `go` statement or a callback that runs a function without a body
when no graph is asked, because it is switched off or the file has syntax errors, or when the
signature passes the function and no calls are required of it. With a graph, a `go` statement that
runs such a function is found at fault when its signature has no context and no argument passes one,
and when calls are required of it. -/
theorem check_bodiless (settings : Settings) {root : Node} (hfile : root.IsFile)
    (hspawns : (ofFile settings root).Spawns subject expr)
    (hruns : Runs (ofFile settings root).resolution expr declaration) :
    let i := ofFile settings root
    (settings.precise = false ∨ root.hasErrors = true ∨
        (i.resolution.ReachesToken settings.carriers declaration ∧
          ∀ requirement, settings.checkedRequirement = some requirement →
            requirement.outcome i.resolution [] = .atStart) →
      ∀ f ∈ checkFile settings root, f.checker ≠ .unusedIgnore → f.span ≠ subject.span) ∧
    (settings.precise = true → root.hasErrors = false → ∀ call,
      subject.kind = .goStatement → spawnedCall subject = some (call, expr) →
      (settings.checkers.has .goroutine = true → call.arguments.any i.passesToken = false →
        ¬ i.resolution.ReachesToken settings.carriers declaration →
        ∃ f ∈ i.findings, f.checker = .goroutine ∧ f.span = subject.span) ∧
      ∀ requirement, settings.checkedRequirement = some requirement →
        requirement.outcome i.resolution [] ≠ .atStart →
        ∃ f ∈ i.findings, f.checker = .derive ∧ f.span = subject.span) := by
  intro i
  have hr : i.resolution.Grounded := Resolution.grounded_of_isFile hfile
  have hroot : i.resolution.root = root := Resolution.root_ofFile hfile.wellFormed
  have hgraph : i.HasOwnGraph := hasOwnGraph_ofTree ..
  constructor
  · intro hexcused f hf hproper hspan
    refine not_faults_of_runs hruns hr hgraph ?_
      (faults_of_span hspawns hr.wellFormed hruns.kind
        (mem_findings_of_mem_report hf hproper) hspan)
    obtain hprecise | herrors | hpasses := hexcused
    · exact .inl (by simp [Inspection.ofFile, ofTree, hprecise])
    · refine .inl ?_
      have hnone : CaptureGraph.build i.resolution = none := if_pos (by rw [hroot, herrors])
      obtain h | h := hgraph
      · exact h
      · rw [h, hnone]
    · exact .inr hpasses
  · intro hprecise herrors call hgo hspawned
    obtain ⟨g, hg⟩ : ∃ g, i.graph = some g := by
      obtain ⟨g, hg⟩ := CaptureGraph.exists_build hfile.wellFormed herrors
      exact ⟨g, (if_pos hprecise).trans hg⟩
    obtain ⟨htrace, houtcome⟩ := trace_of_runs hruns hr hgraph hg
    obtain ⟨hmem, hscope⟩ : subject ∈ i.resolution.root.preorder ∧ i.InTokenScope subject := by
      cases hspawns with
      | goStatement mem _ scope _ => exact ⟨mem, scope⟩
      | callback mem _ _ matched callback_mem =>
        have hplain :=
          (SpawnSite.isArgument hr.wellFormed mem matched callback_mem).isPlain hr.wellFormed
        rw [hgo] at hplain
        cases hplain
    constructor
    · intro henabled hpasses hreaches
      exact exists_mem_findings_of_trace hmem hgo hscope hspawned henabled hpasses
        (htrace.2 hreaches)
    · intro requirement hchecked hmissing
      exact exists_mem_findings_of_traceOutcome hmem hgo hscope hspawned hchecked
        (houtcome requirement) hmissing

def runsBodiless (i : Inspection) (n : Node) : Bool :=
  n.kind == .goStatement &&
    (TokenScope.around i.resolution.root i.resolution.imports i.settings.carriers n).isSome &&
    (spawnedCall n).any fun (_, callee) => callee.bare.kind == .identifier &&
      (i.resolution.bindingOf callee.bare).any fun (_, b) =>
        b.kind.declaration?.any fun declaration => (declaration.child? .body).isNone

theorem exists_runs_of_runsBodiless (hmem : n ∈ i.resolution.root.preorder)
    (h : i.runsBodiless n = true) :
    ∃ expr declaration, i.Spawns n expr ∧ Runs i.resolution expr declaration := by
  simp only [runsBodiless, Bool.and_eq_true, beq_iff_eq, Option.any_eq_true] at h
  obtain ⟨⟨hgo, hscope⟩, ⟨call, callee⟩, hspawned, hident, ⟨j, b⟩, hb, declaration,
    hdeclaration, hbody⟩ := h
  have hkind : b.kind = .function declaration := by
    cases hk : b.kind <;> simp_all [BindingKind.declaration?]
  exact ⟨callee, declaration, .goStatement hmem hgo hscope hspawned, hident, ⟨j, b, hb, hkind⟩,
    Option.isNone_iff_eq_none.1 hbody⟩

def bodilessGoroutine : String :=
  "package p\nimport \"context\"\nfunc ext()\nfunc run(ctx context.Context) \x7b\n" ++
    "\tgo ext()\n\x7d\n"

set_option maxRecDepth 4000 in
theorem check_bodiless_bodilessGoroutine :
    let settings := { Settings.standard with precise := false }
    ∃ subject expr declaration, (ofFile settings (parse bodilessGoroutine)).Spawns subject expr ∧
      Runs (ofFile settings (parse bodilessGoroutine)).resolution expr declaration ∧
      ∀ f ∈ check settings bodilessGoroutine, f.checker ≠ .unusedIgnore →
        f.span ≠ subject.span := by
  intro settings
  have hrun : (ofFile settings (parse bodilessGoroutine)).resolution.root.preorder.any
      (ofFile settings (parse bodilessGoroutine)).runsBodiless = true := by
    decide +kernel
  obtain ⟨subject, hmem, h⟩ := List.any_eq_true.1 hrun
  obtain ⟨expr, declaration, hspawns, hruns⟩ := exists_runs_of_runsBodiless hmem h
  exact ⟨subject, expr, declaration, hspawns, hruns,
    (check_bodiless settings (isFile_parse bodilessGoroutine) hspawns hruns).1 (.inl rfl)⟩

set_option maxRecDepth 4000 in
/-- With the graph, the function without a body is the reason for a finding. -/
theorem check_bodilessGoroutine :
    ∃ subject expr declaration, (ofFile .standard (parse bodilessGoroutine)).Spawns subject expr ∧
      Runs (ofFile .standard (parse bodilessGoroutine)).resolution expr declaration ∧
      ∃ f ∈ check .standard bodilessGoroutine, f.checker = .goroutine ∧ f.span = subject.span := by
  have hrun : (ofFile .standard (parse bodilessGoroutine)).resolution.root.preorder.any (fun n =>
      (ofFile .standard (parse bodilessGoroutine)).runsBodiless n &&
        (check .standard bodilessGoroutine).any fun f =>
          f.checker == .goroutine && f.span == n.span) = true := by
    decide +kernel
  simp only [List.any_eq_true, Bool.and_eq_true, beq_iff_eq] at hrun
  obtain ⟨subject, hmem, h, hreported⟩ := hrun
  obtain ⟨expr, declaration, hspawns, hruns⟩ := exists_runs_of_runsBodiless hmem h
  exact ⟨subject, expr, declaration, hspawns, hruns, hreported⟩

end Inspection

end Handoff
