import Handoff.Inspection

/-!
# What a site can report

A finding about a `go` statement is about its closure or about the calls that the closure has to
make, and a finding about a call is one of these for one of its callbacks. The lemmas here open the
definitions once; later proofs about findings start from them.
-/

namespace Handoff

open Syntax

namespace Spawner

variable {s : Spawner} {d callee : Node} {r : Resolution}

theorem target_of_ofDeclaration (h : ofDeclaration d = some s) :
    ∃ name, d.child? .name = some name ∧ s.target = .bare name.text := by
  simp only [ofDeclaration, Option.bind_eq_bind, Option.bind_eq_some_iff] at h
  obtain ⟨name, hname, list, -, h⟩ := h
  split at h
  · cases h
  · cases h
    exact ⟨name, hname, rfl⟩

/-- A mark stands on the line of a declaration or on the line above. -/
def isMarked (marks : List Nat) (d : Node) : Bool :=
  marks.contains d.line || marks.contains (d.line - 1)

/-- A function of the file's own package is called by its plain name. -/
theorem kind_of_isCallee (hpackage : s.target.package = none) (h : s.isCallee r callee = true) :
    callee.kind = .identifier := by
  unfold isCallee at h
  split at h
  next hkind => exact hkind
  next =>
    split at h
    · simp [hpackage] at h
    · cases h
  next => cases h

end Spawner

theorem SpawnSite.spawner_of_ofCall {spawners : List Spawner} {r : Resolution} {call : Node}
    {site : SpawnSite} (h : ofCall spawners r call = some site) :
    site.spawner ∈ spawners ∧ site.callbacks = site.spawner.callbacksOf call := by
  simp only [ofCall, Option.bind_eq_bind, Option.bind_eq_some_iff, Option.pure_def,
    Option.some.injEq] at h
  obtain ⟨callee, _, spawner, hs, rfl⟩ := h
  exact ⟨List.mem_of_find?_eq_some hs, rfl⟩

namespace Inspection

variable {i : Inspection} {f : Finding} {n call : Node} {contexts : List String}

theorem checker_of_mem_outcomeFinding {requirement : Requirement} {place : String}
    {outcome : Outcome} (h : f ∈ outcomeFinding requirement n place outcome) :
    f.checker = .derive := by
  cases outcome <;> simp [outcomeFinding] at h <;> simp [h]

/-- A finding about a `go` statement is on the closure, when nothing passes a context to it, or on
the required calls. -/
theorem mem_goFindings (h : f ∈ i.goFindings contexts n) :
    ∃ call callee, spawnedCall n = some (call, callee) ∧
      (f.checker = .goroutine ∧ f.span = n.span ∧ i.goUsesToken callee n = false ∨
        f.checker = .derive) := by
  unfold goFindings at h
  split at h
  next => simp at h
  next call callee hc =>
    refine ⟨call, callee, hc, ?_⟩
    obtain h | h := List.mem_append.1 h
    · split at h <;> simp_all
    · split at h
      next => exact .inr (checker_of_mem_outcomeFinding h)
      next => simp at h

/-- A finding about a callback is on the closure or on the required calls. -/
theorem mem_callbackFindings {site : SpawnSite} {callback : Callback}
    (h : f ∈ i.callbackFindings contexts site call callback) :
    f.checker = site.spawner.checker ∧ f.span = callback.expr.span ∧
        i.callbackUsesToken site callback call = false ∨
      f.checker = .derive := by
  obtain h | h := List.mem_append.1 h
  · split at h <;> simp_all
  · split at h
    next => exact .inr (checker_of_mem_outcomeFinding h)
    next => simp at h

/-- A finding about a site is about its `go` statement or about a callback of its call. -/
theorem mem_siteFindings (h : f ∈ i.siteFindings n) :
    ∃ scope, TokenScope.around i.resolution.root i.resolution.imports i.settings.carriers n =
        some scope ∧
      (n.kind = .goStatement ∧ f ∈ i.goFindings scope.names n ∨
        n.kind = .callExpression ∧ ∃ site, SpawnSite.ofCall i.spawners i.resolution n = some site ∧
          ∃ callback ∈ site.callbacks, f ∈ i.callbackFindings scope.names site n callback) := by
  simp only [siteFindings] at h
  split at h
  next hs =>
    split at h
    next => simp at h
    next scope hscope =>
      refine ⟨scope, hscope, ?_⟩
      split at h
      next hk => exact .inl ⟨hk, h⟩
      next hk =>
        have hc : n.kind = .callExpression := by simpa [isSite, hk] using hs
        unfold callFindings at h
        split at h
        next => simp at h
        next site hsite =>
          obtain ⟨callback, hcb, hf⟩ := List.mem_flatMap.1 h
          exact .inr ⟨hc, site, hsite, callback, hcb, hf⟩
  next => simp at h

/-- Findings about sites come from the goroutine checker, the derivation checker and the
spawners'. -/
theorem checker_of_mem_findings (h : f ∈ i.findings) :
    f.checker = .goroutine ∨ f.checker = .derive ∨ ∃ s ∈ i.spawners, f.checker = s.checker := by
  obtain ⟨n, _, h⟩ := List.mem_flatMap.1 h
  obtain ⟨scope, _, ⟨_, h⟩ | ⟨_, site, hsite, callback, _, h⟩⟩ := mem_siteFindings h
  · obtain ⟨_, _, _, h | h⟩ := mem_goFindings h
    · exact .inl h.1
    · exact .inr (.inl h)
  · obtain h | h := mem_callbackFindings h
    · exact .inr (.inr ⟨site.spawner, (SpawnSite.spawner_of_ofCall hsite).1, h.1⟩)
    · exact .inr (.inl h)

end Inspection

end Handoff
