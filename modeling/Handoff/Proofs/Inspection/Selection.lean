import Handoff.Proofs.Ledger.Suppression

/-!
# Checkers do not interfere

Which checkers are enabled, and which calls are required, decides only what is reported by the
checkers concerned. The runs share a ledger that every finding writes to, and one sort at the end;
but no answer of the ledger reads what was written, and a stable sort keeps the order of every
sublist. So the findings of a checker are the same in all runs that enable it, the findings about
directives apart.

## Main definitions

* `Settings.AgreesOn`: a choice of checkers and requirement that makes no difference to some
  checkers.
* `Inspection.selecting`: an inspection under other checkers and another requirement.
-/

namespace Handoff

open Syntax

variable {p : Checker → Bool} {checkers : CheckerSet} {requirement : Option Requirement}

def Finding.isOf (p : Checker → Bool) (f : Finding) : Bool :=
  p f.checker

/-- Other checkers and another requirement make no difference to the checkers in `p`. -/
structure Settings.AgreesOn (s : Settings) (p : Checker → Bool) (checkers : CheckerSet)
    (requirement : Option Requirement) : Prop where
  has : ∀ c, p c = true → checkers.has c = s.checkers.has c
  requirement : p .derive = true → requirement = s.requirement

namespace Inspection

variable {i : Inspection} {contexts : List String} {n call : Node} {site : SpawnSite}
  {callback : Callback}

def selecting (i : Inspection) (checkers : CheckerSet)
    (requirement : Option Requirement) : Inspection :=
  { i with settings := { i.settings with checkers, requirement } }

/-- A finding that is made when its checker is enabled. -/
theorem filter_ite_has {s : CheckerSet} {f : Finding} {b : Bool}
    (h : p f.checker = true → checkers.has f.checker = s.has f.checker) :
    (if checkers.has f.checker && b then [f] else []).filter (Finding.isOf p) =
      (if s.has f.checker && b then [f] else []).filter (Finding.isOf p) := by
  by_cases hp : p f.checker = true
  · rw [h hp]
  · have hnone : [f].filter (Finding.isOf p) = [] := List.filter_cons_of_neg hp
    split <;> split <;> simp [hnone]

/-- The findings on required calls, for whichever requirement is checked. -/
theorem filter_checkedRequirement {finding : Requirement → List Finding}
    (hderive : ∀ q, ∀ f ∈ finding q, f.checker = .derive)
    (h : i.settings.AgreesOn p checkers requirement) :
    (match (i.selecting checkers requirement).settings.checkedRequirement with
      | some q => finding q
      | none => []).filter (Finding.isOf p) =
    (match i.settings.checkedRequirement with
      | some q => finding q
      | none => []).filter (Finding.isOf p) := by
  by_cases hp : p .derive = true
  · have hsame : (i.selecting checkers requirement).settings.checkedRequirement =
        i.settings.checkedRequirement := by
      simp [Settings.checkedRequirement, selecting, h.has _ hp, h.requirement hp]
    rw [hsame]
  · have hnone : ∀ q, (finding q).filter (Finding.isOf p) = [] := fun q =>
      List.filter_eq_nil_iff.2 fun f hf => by rwa [Finding.isOf, hderive q f hf]
    split <;> split <;> simp only [hnone, List.filter_nil]

theorem filter_goFindings (h : i.settings.AgreesOn p checkers requirement) :
    ((i.selecting checkers requirement).goFindings contexts n).filter (Finding.isOf p) =
      (i.goFindings contexts n).filter (Finding.isOf p) := by
  unfold goFindings
  cases spawnedCall n with
  | none => rfl
  | some spawned =>
    simp only [List.filter_append, Bool.and_assoc]
    congr 1
    · exact filter_ite_has (f := ⟨.goroutine, n.span, _⟩) (h.has _)
    · exact filter_checkedRequirement (fun _ _ => checker_of_mem_outcomeFinding) h

theorem filter_callbackFindings (h : i.settings.AgreesOn p checkers requirement) :
    ((i.selecting checkers requirement).callbackFindings contexts site call callback).filter
        (Finding.isOf p) =
      (i.callbackFindings contexts site call callback).filter (Finding.isOf p) := by
  unfold callbackFindings
  simp only [List.filter_append]
  congr 1
  · exact filter_ite_has (f := ⟨site.spawner.checker, callback.expr.span, _⟩) (h.has _)
  · exact filter_checkedRequirement (fun _ _ => checker_of_mem_outcomeFinding) h

theorem filter_callFindings (h : i.settings.AgreesOn p checkers requirement) :
    ((i.selecting checkers requirement).callFindings contexts call).filter (Finding.isOf p) =
      (i.callFindings contexts call).filter (Finding.isOf p) := by
  have hsame : SpawnSite.ofCall (i.selecting checkers requirement).spawners
      (i.selecting checkers requirement).resolution call =
        SpawnSite.ofCall i.spawners i.resolution call := rfl
  unfold callFindings
  rw [hsame]
  cases SpawnSite.ofCall i.spawners i.resolution call with
  | none => rfl
  | some site => simp only [List.filter_flatMap, filter_callbackFindings h]

/-- At a site, checkers that settings agree on find the same. -/
theorem filter_siteFindings (h : i.settings.AgreesOn p checkers requirement) :
    ((i.selecting checkers requirement).siteFindings n).filter (Finding.isOf p) =
      (i.siteFindings n).filter (Finding.isOf p) := by
  have hsame : TokenScope.around (i.selecting checkers requirement).resolution.root
      (i.selecting checkers requirement).resolution.imports
      (i.selecting checkers requirement).settings.carriers n =
        TokenScope.around i.resolution.root i.resolution.imports i.settings.carriers n := rfl
  simp only [siteFindings, hsame]
  split
  · cases TokenScope.around i.resolution.root i.resolution.imports i.settings.carriers n with
    | none => rfl
    | some scope =>
      dsimp only
      split
      · exact filter_goFindings h
      · exact filter_callFindings h
  · rfl

/-- The findings of the checkers in `p` are the same under every choice that agrees on them. -/
theorem filter_findings (h : i.settings.AgreesOn p checkers requirement) :
    (i.selecting checkers requirement).findings.filter (Finding.isOf p) =
      i.findings.filter (Finding.isOf p) := by
  unfold findings
  simp only [List.filter_flatMap, filter_siteFindings h]
  rfl

theorem filter_isOf_report (hproper : p .unusedIgnore = false) (l : Ledger) :
    (i.report l).filter (Finding.isOf p) =
      inReportOrder ((i.findings.filter (Finding.isOf p)).filter
        fun f => !decide (l.Covers f.line f.checker)) := by
  -- What is about directives is not in `p`, and the rest is a filter of the findings.
  have hunused :
      ∀ l : Ledger, (l.unusedDirectives i.settings.checkers).filter (Finding.isOf p) = [] := by
    intro l
    refine List.filter_eq_nil_iff.2 fun f hf => ?_
    simp [Finding.isOf, Ledger.checker_of_mem_unusedDirectives hf, hproper]
  simp only [report, filter_inReportOrder, List.filter_append, hunused, List.append_nil,
    Ledger.suppress_fst, List.filter_filter, Bool.and_comm]

/-! ### Enabled checkers -/

theorem has_of_checkedRequirement {q : Requirement} (h : i.settings.checkedRequirement = some q) :
    i.settings.checkers.has .derive = true := by
  unfold Settings.checkedRequirement at h
  split at h
  · assumption
  · cases h

theorem has_of_mem_goFindings {f : Finding} (h : f ∈ i.goFindings contexts n) :
    i.settings.checkers.has f.checker = true := by
  unfold goFindings at h
  split at h
  · cases h
  · obtain h | h := List.mem_append.1 h
    · split at h <;> simp_all
    · split at h
      next hq => rw [checker_of_mem_outcomeFinding h, has_of_checkedRequirement hq]
      next => cases h

theorem has_of_mem_callbackFindings {f : Finding}
    (h : f ∈ i.callbackFindings contexts site call callback) :
    i.settings.checkers.has f.checker = true := by
  obtain h | h := List.mem_append.1 h
  · split at h <;> simp_all
  · split at h
    next hq => rw [checker_of_mem_outcomeFinding h, has_of_checkedRequirement hq]
    next => cases h

/-- Only enabled checkers report. -/
theorem has_of_mem_report {f : Finding} {l : Ledger} (h : f ∈ i.report l) :
    i.settings.checkers.has f.checker = true := by
  simp only [report, mem_inReportOrder, List.mem_append, Ledger.suppress_fst] at h
  obtain h | h := h
  · obtain ⟨n, -, h⟩ := List.mem_flatMap.1 (List.mem_of_mem_filter h)
    obtain ⟨scope, -, ⟨-, h⟩ | ⟨-, site, -, callback, -, h⟩⟩ := mem_siteFindings h
    · exact has_of_mem_goFindings h
    · exact has_of_mem_callbackFindings h
  · rw [Ledger.checker_of_mem_unusedDirectives h]
    unfold Ledger.unusedDirectives at h
    split at h
    · assumption
    · cases h

end Inspection

/-- Under settings that differ in the enabled checkers and the requirement, the checkers in `p`
report the same when the settings agree on them. -/
theorem filter_isOf_checkFile (settings : Settings) (root : Node)
    (h : settings.AgreesOn p checkers requirement) (hproper : p .unusedIgnore = false) :
    (checkFile { settings with checkers, requirement } root).filter (Finding.isOf p) =
      (checkFile settings root).filter (Finding.isOf p) := by
  let i := Inspection.ofTree settings root (Ledger.ofTree root).marks
  have hother : checkFile { settings with checkers, requirement } root =
      (i.selecting checkers requirement).report (Ledger.ofTree root) := rfl
  have hself : checkFile settings root = i.report (Ledger.ofTree root) := rfl
  rw [hother, hself, Inspection.filter_isOf_report hproper, Inspection.filter_isOf_report hproper,
    Inspection.filter_findings h]

/-- Checkers do not interfere. Under settings that differ only in the enabled checkers and the
requirement, a propagation checker that both enable reports the same findings in the same order, and
so does the derivation checker if the requirement is the same. A checker that is not enabled reports
nothing. With the same requirement, the findings of all common checkers, those about directives
apart, form the same list. -/
theorem check_filter_checker (settings : Settings) (checkers : CheckerSet)
    (requirement : Option Requirement) (root : Node) :
    (∀ c, c.kind = .propagation → settings.checkers.has c = true → checkers.has c = true →
      (checkFile { settings with checkers, requirement } root).filter (·.checker == c) =
        (checkFile settings root).filter (·.checker == c)) ∧
    (requirement = settings.requirement → settings.checkers.has .derive = true →
      checkers.has .derive = true →
      (checkFile { settings with checkers, requirement } root).filter (·.checker == .derive) =
        (checkFile settings root).filter (·.checker == .derive)) ∧
    (∀ f ∈ checkFile settings root, settings.checkers.has f.checker = true) ∧
    (requirement = settings.requirement →
      (checkFile { settings with checkers, requirement } root).filter (fun f =>
          f.checker != .unusedIgnore && settings.checkers.has f.checker && checkers.has f.checker) =
        (checkFile settings root).filter fun f =>
          f.checker != .unusedIgnore && settings.checkers.has f.checker &&
            checkers.has f.checker) := by
  refine ⟨fun c hkind hself hother => ?_, fun hsame hself hother => ?_, fun f =>
    Inspection.has_of_mem_report, fun hsame => ?_⟩
  · refine filter_isOf_checkFile (p := (· == c)) settings root ⟨fun d hd => ?_, fun hd => ?_⟩ ?_
    · rw [eq_of_beq hd, hself, hother]
    · rw [← eq_of_beq hd] at hkind
      cases hkind
    · cases c <;> first | rfl | cases hkind
  · refine filter_isOf_checkFile (p := (· == .derive)) settings root
      ⟨fun d hd => ?_, fun _ => hsame⟩ rfl
    rw [eq_of_beq hd, hself, hother]
  · refine filter_isOf_checkFile
      (p := fun c => c != .unusedIgnore && settings.checkers.has c && checkers.has c) settings root
      ⟨fun d hd => ?_, fun _ => hsame⟩ rfl
    obtain ⟨⟨-, hself⟩, hother⟩ : (_ ∧ _) ∧ _ := by simpa using hd
    rw [hself, hother]

def twoSpawns : String :=
  "package p\nimport \"context\"\nimport \"golang.org/x/sync/errgroup\"\n" ++
    "func run(ctx context.Context, g *errgroup.Group) \x7b\n\t//ignore errgroup\n" ++
    "\tg.Go(func() error \x7b return nil \x7d)\n\tgo func() \x7b\x7d()\n\x7d\n"

def goroutineOnly : CheckerSet := .ofList [.goroutine, .unusedIgnore]

set_option maxRecDepth 4000 in
theorem check_filter_checker_twoSpawns :
    Checker.goroutine.kind = .propagation ∧ CheckerSet.all.has .goroutine = true ∧
      goroutineOnly.has .goroutine = true ∧
      (check { Settings.standard with checkers := goroutineOnly } twoSpawns).filter
          (·.checker == .goroutine) =
        (check .standard twoSpawns).filter (·.checker == .goroutine) ∧
      (check .standard twoSpawns).map Finding.checker = [.goroutine] ∧
      (check { Settings.standard with checkers := goroutineOnly } twoSpawns).map Finding.checker =
        [.unusedIgnore, .goroutine] := by
  refine ⟨rfl, rfl, rfl, ?_, by decide +kernel, by decide +kernel⟩
  exact (check_filter_checker .standard goroutineOnly none (parse twoSpawns)).1
    .goroutine rfl rfl rfl

end Handoff
