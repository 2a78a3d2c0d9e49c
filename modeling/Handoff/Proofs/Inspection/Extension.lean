import Handoff.Proofs.Inspection.Literal
import Mathlib.Data.List.Flatten
import Mathlib.Data.List.Perm.Basic

/-!
# Configured spawners only add findings

A configured spawner is a function or method of a package, and a call matches it through a selector.
It comes after the spawners that were there before, and before the functions that the file marks;
but those match plain names only. So a call that was matched before keeps its spawner and its
callbacks, and more spawners add findings about other calls and change nothing else.

## Main definitions

* `Spawner.IsConfigured`: a spawner that a configuration can name.
* `Settings.extendedBy`: settings with more spawners.

## Main statement

* `check_extendedBy`: what more spawners do to a report.
-/

namespace Handoff

open Syntax Node

variable {r : Resolution} {call callee root : Node} {s : Spawner} {entries known : List Spawner}
  {marks : List Nat} {settings : Settings}

namespace Spawner

def IsConfigured (s : Spawner) : Prop :=
  ∃ target callback isVariadic wrapper, ofSpec target callback isVariadic wrapper = .ok s

/-- A configured spawner is a function of a package. -/
theorem IsConfigured.package (h : s.IsConfigured) : s.target.package ≠ none := by
  obtain ⟨target, callback, isVariadic, wrapper, h⟩ := h
  unfold ofSpec at h
  split at h
  next name hname =>
    by_cases hlocal : name.package.isNone = true
    · rw [if_pos hlocal] at h
      cases h
    · have hplain : (if isVariadic = true then variadic .spawner name callback
          else single .spawner name callback).target = name := by
        split <;> rfl
      rw [if_neg hlocal] at h
      dsimp only [pure_bind] at h
      split at h
      · obtain rfl := Except.ok.inj h
        rw [hplain]
        simpa using hlocal
      · split at h
        · obtain rfl := Except.ok.inj h
          dsimp only
          rw [hplain]
          simpa using hlocal
        · cases h
  next => cases h

/-- A plain name is no configured spawner. -/
theorem IsConfigured.isCallee (h : s.IsConfigured) (hkind : callee.kind = .identifier) :
    s.isCallee r callee = false := by
  simp [Spawner.isCallee, hkind, h.package]

/-- A marked function is called by its plain name. -/
theorem kind_of_isCallee_ofMarks (hs : s ∈ ofMarks root marks) (h : s.isCallee r callee = true) :
    callee.kind = .identifier := by
  obtain ⟨declaration, -, hs⟩ := List.mem_filterMap.1 hs
  obtain ⟨name, -, htarget⟩ := target_of_ofDeclaration hs
  exact kind_of_isCallee (by simp [htarget, QualifiedName.bare]) h

end Spawner

/-- A call that is matched keeps its spawner and its callbacks when spawners are configured. -/
theorem SpawnSite.ofCall_append {site : SpawnSite} (hentries : ∀ s ∈ entries, s.IsConfigured)
    (h : ofCall (known ++ Spawner.ofMarks root marks) r call = some site) :
    ofCall (known ++ entries ++ Spawner.ofMarks root marks) r call = some site := by
  simp only [ofCall, Option.bind_eq_bind, Option.bind_eq_some_iff, Option.pure_def] at h ⊢
  obtain ⟨callee, hcallee, spawner, hspawner, hsite⟩ := h
  refine ⟨callee, hcallee, spawner, ?_, hsite⟩
  rw [List.find?_append, Option.or_eq_some_iff] at hspawner
  rw [List.append_assoc, List.find?_append, List.find?_append, Option.or_eq_some_iff]
  refine hspawner.imp_right (And.imp_right fun hmarked => ?_)
  have hcall : spawner.isCallee r callee.bare = true :=
    List.find?_some (p := fun s : Spawner => s.isCallee r _) hmarked
  have hkind := Spawner.kind_of_isCallee_ofMarks (List.mem_of_find?_eq_some hmarked) hcall
  have hnone : entries.find? (fun s => s.isCallee r callee.bare) = none :=
    List.find?_eq_none.2 fun s hs => by simp [(hentries s hs).isCallee hkind]
  rw [hnone, Option.none_or, hmarked]

/-- A call that is matched only with more spawners is matched by one of them. -/
theorem SpawnSite.spawner_mem_of_ofCall_append {marked : List Spawner} {site : SpawnSite}
    (hbefore : ofCall (known ++ marked) r call = none)
    (hafter : ofCall (known ++ entries ++ marked) r call = some site) : site.spawner ∈ entries := by
  simp only [ofCall, Option.bind_eq_bind, Option.bind_eq_some_iff, Option.pure_def] at hafter
  obtain ⟨callee, hcallee, spawner, hspawner, hsite⟩ := hafter
  obtain rfl := Option.some.inj hsite
  have hcall : spawner.isCallee r callee.bare = true :=
    List.find?_some (p := fun s : Spawner => s.isCallee r _) hspawner
  have hnone : (known ++ marked).find? (fun s => s.isCallee r callee.bare) = none := by
    cases hfound : (known ++ marked).find? (fun s => s.isCallee r callee.bare) with
    | none => rfl
    | some found =>
      simp only [ofCall, hcallee, Option.bind_eq_bind, Option.bind_some, hfound] at hbefore
      cases hbefore
  have hother : spawner ∉ known ++ marked :=
    fun hmem => List.find?_eq_none.1 hnone spawner hmem hcall
  have hmem := List.mem_of_find?_eq_some hspawner
  simp only [List.mem_append, not_or] at hother hmem
  tauto

def Settings.extendedBy (settings : Settings) (entries : List Spawner) : Settings :=
  { settings with spawners := settings.spawners ++ entries }

namespace Inspection

/-- What is found at a node with more spawners is what was found before and, when the node is a call
that was not matched, what is found about it now. -/
theorem siteFindings_extendedBy (settings : Settings) (root : Node) (marks : List Nat)
    (hentries : ∀ s ∈ entries, s.IsConfigured) (n : Node) :
    let before := ofTree settings root marks
    let after := ofTree (settings.extendedBy entries) root marks
    after.siteFindings n = before.siteFindings n ++
      if n.kind = .callExpression ∧
          (SpawnSite.ofCall before.spawners before.resolution n).isNone then
        after.siteFindings n
      else [] := by
  intro before after
  -- only calls are matched with spawners
  by_cases hcall : n.kind = .callExpression
  · cases hmatched : SpawnSite.ofCall before.spawners before.resolution n with
    | none =>
      have hnone : before.siteFindings n = [] := by
        simp only [siteFindings, callFindings, hmatched, hcall]
        split
        · split <;> rfl
        · rfl
      simp [hcall, hnone]
    | some site =>
      have hsame : SpawnSite.ofCall after.spawners after.resolution n = some site :=
        SpawnSite.ofCall_append hentries hmatched
      have hcalls : ∀ contexts, after.callFindings contexts n = before.callFindings contexts n := by
        intro contexts
        simp only [callFindings, hmatched, hsame]
        rfl
      simp only [siteFindings, hcalls, Option.isNone_some, Bool.false_eq_true, and_false, if_false,
        List.append_nil]
      rfl
  · have hsame : after.siteFindings n = before.siteFindings n := by
      unfold siteFindings
      by_cases hgo : n.kind = .goStatement
      · simp only [hgo]
        rfl
      · simp [isSite, hcall, hgo]
    simp [hcall, hsame]

/-- The findings about calls that no spawner matched before. -/
def added (settings : Settings) (root : Node) (marks : List Nat)
    (entries : List Spawner) : List Finding :=
  let before := ofTree settings root marks
  let after := ofTree (settings.extendedBy entries) root marks
  after.resolution.root.preorder.flatMap fun n =>
    if n.kind = .callExpression ∧ (SpawnSite.ofCall before.spawners before.resolution n).isNone then
      after.siteFindings n
    else []

/-- An added finding is about a call that an added spawner matches and none did before. -/
theorem exists_call_of_mem_added {f : Finding} (h : f ∈ added settings root marks entries) :
    let before := ofTree settings root marks
    let after := ofTree (settings.extendedBy entries) root marks
    ∃ call ∈ before.resolution.root.preorder, call.kind = .callExpression ∧
      SpawnSite.ofCall before.spawners before.resolution call = none ∧
      (∃ site, SpawnSite.ofCall after.spawners after.resolution call = some site ∧
        site.spawner ∈ entries) ∧ f ∈ after.siteFindings call := by
  intro before after
  obtain ⟨call, hmem, h⟩ := List.mem_flatMap.1 h
  split at h
  next hcall =>
    obtain ⟨hkind, hnone⟩ := hcall
    have hnone := Option.isNone_iff_eq_none.1 hnone
    refine ⟨call, hmem, hkind, hnone, ?_, h⟩
    obtain ⟨scope, -, ⟨hgo, -⟩ | ⟨-, site, hsite, -⟩⟩ := mem_siteFindings h
    · cases hgo.symm.trans hkind
    · exact ⟨site, hsite, SpawnSite.spawner_mem_of_ofCall_append hnone hsite⟩
  next => cases h

/-- With more spawners the findings grow by those about calls that were not matched before. -/
theorem findings_extendedBy (settings : Settings) (root : Node) (marks : List Nat)
    (hentries : ∀ s ∈ entries, s.IsConfigured) :
    let before := ofTree settings root marks
    let after := ofTree (settings.extendedBy entries) root marks
    before.findings.Sublist after.findings ∧
      after.findings.Perm (before.findings ++ added settings root marks entries) := by
  intro before after
  have hsite := siteFindings_extendedBy settings root marks hentries
  have hfindings : after.findings = before.resolution.root.preorder.flatMap after.siteFindings :=
    rfl
  constructor
  · rw [hfindings]
    refine List.Sublist.flatMap_right _ fun n _ => ?_
    rw [hsite n]
    exact List.sublist_append_left ..
  · rw [hfindings, List.flatMap_congr fun n _ => hsite n]
    exact (List.flatMap_append_perm ..).symm

end Inspection

/-- Configured spawners extend the known ones conservatively. A call that is matched keeps its
spawner and its callbacks. What is reported, directives apart, is what was reported, in the same
order, and findings about calls that only an added spawner matches. -/
theorem check_extendedBy (settings : Settings) (wf : root.WellFormed) (entries : List Spawner)
    (hentries : ∀ s ∈ entries, s.IsConfigured) :
    let before := Inspection.ofFile settings root
    let after := Inspection.ofFile (settings.extendedBy entries) root
    (∀ call site, SpawnSite.ofCall before.spawners before.resolution call = some site →
      SpawnSite.ofCall after.spawners after.resolution call = some site) ∧
    ((checkFile settings root).filter Inspection.isProper).Sublist
      ((checkFile (settings.extendedBy entries) root).filter Inspection.isProper) ∧
    ∃ extra, ((checkFile (settings.extendedBy entries) root).filter Inspection.isProper).Perm
        ((checkFile settings root).filter Inspection.isProper ++ extra) ∧
      ∀ f ∈ extra, ∃ call ∈ root.preorder, call.kind = .callExpression ∧
        SpawnSite.ofCall before.spawners before.resolution call = none ∧
        (∃ site, SpawnSite.ofCall after.spawners after.resolution call = some site ∧
          site.spawner ∈ entries) ∧ f ∈ after.siteFindings call := by
  intro before after
  let covered : Finding → Bool := fun f =>
    !decide ((Ledger.ofTree root).Covers f.line f.checker)
  have hroot : before.resolution.root = root := Resolution.root_ofFile wf
  have hbefore : (checkFile settings root).filter Inspection.isProper =
      inReportOrder ((before.findings.filter Inspection.isProper).filter covered) :=
    Inspection.filter_isProper_report before _
  have hafter : (checkFile (settings.extendedBy entries) root).filter Inspection.isProper =
      inReportOrder ((after.findings.filter Inspection.isProper).filter covered) :=
    Inspection.filter_isProper_report after _
  obtain ⟨hsublist, hperm⟩ := Inspection.findings_extendedBy settings root
    (Ledger.ofTree root).marks hentries
  rw [hbefore, hafter]
  refine ⟨fun call site => SpawnSite.ofCall_append hentries, ?_,
    ((Inspection.added settings root (Ledger.ofTree root).marks entries).filter
      Inspection.isProper).filter covered, ?_, fun f hf => ?_⟩
  · exact sorted_sublist Finding.precedes_total (fun _ _ _ => Finding.precedes_trans)
      ((hsublist.filter _).filter _)
  · refine (sorted_perm ..).trans ((((hperm.filter _).filter _)).trans ?_)
    rw [List.filter_append, List.filter_append]
    exact (sorted_perm ..).symm.append_right _
  · have hadded := List.mem_of_mem_filter (List.mem_of_mem_filter hf)
    exact hroot ▸ Inspection.exists_call_of_mem_added hadded

def markedAndImported : String :=
  "package p\nimport \"context\"\nimport \"example.com/lib\"\n//ctxflow:spawner\n" ++
    "func each(f func()) \x7b\x7d\nfunc run(ctx context.Context) \x7b\n" ++
    "\tlib.Each(func() \x7b\x7d)\n\teach(func() \x7b\x7d)\n\tgo func() \x7b\x7d()\n\x7d\n"

def importedEach : Spawner :=
  .single .spawner (.function "example.com/lib" "Each") 0

set_option maxRecDepth 4000 in
theorem check_extendedBy_markedAndImported :
    (∀ s ∈ [importedEach], s.IsConfigured) ∧
      ((check .standard markedAndImported).filter Inspection.isProper).Sublist
        ((check (Settings.standard.extendedBy [importedEach]) markedAndImported).filter
          Inspection.isProper) ∧
      (check .standard markedAndImported).map Finding.line = [8, 9] ∧
      (check (Settings.standard.extendedBy [importedEach]) markedAndImported).map Finding.line =
        [7, 8, 9] := by
  have hentries : ∀ s ∈ [importedEach], s.IsConfigured := by
    intro s hs
    obtain rfl := List.mem_singleton.1 hs
    exact ⟨"example.com/lib.Each", 0, false, none, by decide +kernel⟩
  exact ⟨hentries,
    (check_extendedBy .standard (parse_wellFormed markedAndImported)
      [importedEach] hentries).2.1, by decide +kernel, by decide +kernel⟩

end Handoff
