import Handoff.Proofs.Inspection.Site
import Mathlib.Data.List.Nodup

/-!
# Suppression is a filter

A directive covers findings on its own line and on the next. Whether a finding is silenced depends
on the directives alone and not on what they silenced before: `Ledger.silence` writes only to the
record of use, and no answer reads it. A report is therefore the report without directives, less
what is covered.

## Main definitions

* `Ledger.Covers`: some directive on the line, or on the line above, covers the checker.
* `Ledger.afterQueries`: the ledger after any sequence of queries.
-/

namespace Handoff

namespace Ledger

variable {l : Ledger} {line k : Nat} {c c' : Checker} {d : Directive}

/-- Some directive on a line, or on the one above, covers a checker. -/
def Covers (l : Ledger) (line : Nat) (c : Checker) : Prop :=
  ∃ d ∈ l.directives, (d.line = line ∨ d.line + 1 = line) ∧ d.covers c = true

instance (l : Ledger) (line : Nat) (c : Checker) : Decidable (l.Covers line c) :=
  inferInstanceAs (Decidable (∃ d ∈ l.directives, _))

def afterQueries (l : Ledger) (queries : List (Nat × Checker)) : Ledger :=
  queries.foldl (fun l q => (l.silence q.1 q.2).2) l

theorem eq_of_line_eq {e : Directive} (hd : d ∈ l.directives) (he : e ∈ l.directives)
    (h : d.line = e.line) : d = e :=
  List.inj_on_of_nodup_map (List.pairwise_map.2 l.distinct) hd he h

theorem onLine_eq_some : l.onLine k = some d ↔ d ∈ l.directives ∧ d.line = k := by
  constructor
  · intro h
    exact ⟨List.mem_of_find?_eq_some h, by simpa using List.find?_some h⟩
  · rintro ⟨hd, rfl⟩
    cases h : l.onLine d.line with
    | none => simpa using List.find?_eq_none.1 h d hd
    | some e =>
      have he : e.line = d.line := by simpa using List.find?_some h
      rw [eq_of_line_eq (List.mem_of_find?_eq_some h) hd he]

theorem any_onLine :
    (l.onLine k).any (·.covers c) = true ↔ ∃ d ∈ l.directives, d.line = k ∧ d.covers c = true := by
  simp only [Option.any_eq_true, onLine_eq_some, and_assoc]

/-- All that a query does. A directive on the line itself comes before one on the line above. -/
theorem silence_cases (l : Ledger) (line : Nat) (c : Checker) :
    (¬ l.Covers line c ∧ l.silence line c = (false, l)) ∨
    ∃ d ∈ l.directives, d.covers c = true ∧
      (d.line = line ∨
        d.line + 1 = line ∧ ∀ e ∈ l.directives, e.line = line → e.covers c = false) ∧
      l.silence line c = (true, l.use d.line c) := by
  by_cases hl : (l.onLine line).any (·.covers c) = true
  · obtain ⟨d, hd, rfl, hc⟩ := any_onLine.1 hl
    refine .inr ⟨d, hd, hc, .inl rfl, ?_⟩
    simp [silence, coveringLine, hl]
  · have hn : ∀ e ∈ l.directives, e.line = line → e.covers c = false := by
      intro e he h
      by_contra hc
      exact hl (any_onLine.2 ⟨e, he, h, by simpa using hc⟩)
    by_cases ha : (l.onLine (line - 1)).any (·.covers c) = true
    · obtain ⟨d, hd, hk, hc⟩ := any_onLine.1 ha
      -- line 0 has no line above it, and the line itself was ruled out
      have hne : d.line ≠ line := fun h => by simp [hn d hd h] at hc
      refine .inr ⟨d, hd, hc, .inr ⟨by omega, hn⟩, ?_⟩
      simp [silence, coveringLine, hl, ha, hk]
    · refine .inl ⟨?_, by simp [silence, coveringLine, hl, ha]⟩
      rintro ⟨d, hd, rfl | rfl, hc⟩
      · simp [hn d hd rfl] at hc
      · exact ha (any_onLine.2 ⟨d, hd, by omega, hc⟩)

theorem covers_use : (l.use k c').Covers line c ↔ l.Covers line c := by
  have same : ∀ d : Directive, (if d.line = k then d.use c' else d).line = d.line ∧
      (if d.line = k then d.use c' else d).covers c = d.covers c := by
    intro d
    split <;> simp [Directive.use, Directive.covers]
  simp [Covers, use, same]

theorem silence_fst (l : Ledger) (line : Nat) (c : Checker) :
    (l.silence line c).1 = decide (l.Covers line c) := by
  obtain ⟨hn, h⟩ | ⟨d, hd, hc, hl, h⟩ := l.silence_cases line c
  · simp [h, hn]
  · have : l.Covers line c := ⟨d, hd, hl.imp id And.left, hc⟩
    simp [h, this]

/-- A query changes no answer. -/
theorem covers_silence {q : Nat × Checker} :
    (l.silence q.1 q.2).2.Covers line c ↔ l.Covers line c := by
  obtain ⟨_, h⟩ | ⟨d, _, _, _, h⟩ := l.silence_cases q.1 q.2
  · rw [h]
  · rw [h, covers_use]

theorem covers_afterQueries (queries : List (Nat × Checker)) :
    (l.afterQueries queries).Covers line c ↔ l.Covers line c := by
  induction queries generalizing l with
  | nil => rfl
  | cons q queries ih => exact ih.trans covers_silence

theorem suppress_fst (l : Ledger) (fs : List Finding) :
    (l.suppress fs).1 = fs.filter fun f => !decide (l.Covers f.line f.checker) := by
  induction fs generalizing l with
  | nil => rfl
  | cons f fs ih =>
    obtain ⟨hn, h⟩ | ⟨d, hd, hc, hl, h⟩ := l.silence_cases f.line f.checker
    · simp [suppress, h, ih, hn]
    · have : l.Covers f.line f.checker := ⟨d, hd, hl.imp id And.left, hc⟩
      simp [suppress, h, ih, this, covers_use]

/-- Using a directive changes that one entry of the list. -/
theorem exists_use_eq (hd : d ∈ l.directives) :
    ∃ above below, l.directives = above ++ d :: below ∧
      (l.use d.line c).directives = above ++ d.use c :: below := by
  obtain ⟨above, below, h⟩ := List.append_of_mem hd
  have distinct := l.distinct
  rw [h, List.pairwise_append, List.pairwise_cons] at distinct
  have ha : ∀ e ∈ above, ¬ e.line = d.line := fun e he =>
    distinct.2.2 e he d (List.mem_cons_self ..)
  have hb : ∀ e ∈ below, ¬ e.line = d.line := fun e he => (distinct.2.1.1 e he).symm
  have keep : ∀ es : List Directive, (∀ e ∈ es, ¬ e.line = d.line) →
      es.map (fun e => if e.line = d.line then e.use c else e) = es := fun es hes =>
    (List.map_congr_left fun e he => if_neg (hes e he)).trans (List.map_id' es)
  refine ⟨above, below, h, ?_⟩
  simp [use, h, keep above ha, keep below hb]

/-- Without directives, nothing is silenced. -/
theorem suppress_of_directives (h : l.directives = []) (fs : List Finding) :
    l.suppress fs = (fs, l) := by
  induction fs with
  | nil => rfl
  | cons f fs ih => simp [suppress, silence, coveringLine, onLine, h, ih]

theorem checker_of_mem_unusedDirectives {enabled : CheckerSet} {f : Finding}
    (h : f ∈ l.unusedDirectives enabled) : f.checker = .unusedIgnore := by
  unfold unusedDirectives at h
  split at h
  · obtain ⟨p, _, rfl⟩ := List.mem_map.1 h
    rfl
  · simp at h

/-- `l'` is `l` with the checker added to what one directive silenced: the covering directive on the
line itself or, without one, that on the line above. -/
def SilencedOnce (l : Ledger) (line : Nat) (c : Checker) (l' : Ledger) : Prop :=
  ∃ above d below, l.directives = above ++ d :: below ∧ d.covers c = true ∧
    (d.line = line ∨
      d.line + 1 = line ∧ ∀ e ∈ l.directives, e.line = line → e.covers c = false) ∧
    l'.directives = above ++ { d with used := d.used.insert c } :: below ∧ l'.marks = l.marks

theorem silence_eq (l : Ledger) (line : Nat) (c : Checker) :
    l.silence line c = (false, l) ∨
      ∃ l', l.silence line c = (true, l') ∧ l.SilencedOnce line c l' := by
  obtain ⟨_, h⟩ | ⟨d, hd, hc, hl, h⟩ := l.silence_cases line c
  · exact .inl h
  · obtain ⟨above, below, hab, huse⟩ := exists_use_eq (c := c) hd
    exact .inr ⟨_, h, above, d, below, hab, hc, hl, huse, rfl⟩

end Ledger

namespace Inspection

/-- The findings that are not about directives. -/
def isProper (f : Finding) : Bool :=
  f.checker != .unusedIgnore

theorem filter_isProper_report (i : Inspection) (l : Ledger) :
    (i.report l).filter isProper =
      inReportOrder ((i.findings.filter isProper).filter
        fun f => !decide (l.Covers f.line f.checker)) := by
  have unused : ∀ l : Ledger, (l.unusedDirectives i.settings.checkers).filter isProper = [] := by
    intro l
    refine List.filter_eq_nil_iff.2 fun f hf => ?_
    simp [isProper, Ledger.checker_of_mem_unusedDirectives hf]
  simp only [report, filter_inReportOrder, List.filter_append, unused, List.append_nil,
    Ledger.suppress_fst, List.filter_filter, Bool.and_comm]

/-- What is reported about anything but directives is found at a site. -/
theorem mem_findings_of_mem_report {i : Inspection} {l : Ledger} {f : Finding} (h : f ∈ i.report l)
    (hproper : f.checker ≠ .unusedIgnore) : f ∈ i.findings := by
  simp only [report, mem_inReportOrder, List.mem_append, Ledger.suppress_fst] at h
  obtain h | h := h
  · exact List.mem_of_mem_filter h
  · exact absurd (Ledger.checker_of_mem_unusedDirectives h) hproper

/-- Without directives, a report lists all findings. -/
theorem report_of_directives {i : Inspection} {l : Ledger} (h : l.directives = []) :
    i.report l = inReportOrder i.findings := by
  simp [report, Ledger.suppress_of_directives h, Ledger.unusedDirectives, Ledger.problems, h]

theorem mem_report_empty {i : Inspection} {f : Finding} (h : f ∈ i.report .empty) :
    f ∈ i.findings := by
  rwa [report_of_directives rfl, mem_inReportOrder] at h

/-- Directives only filter. Findings about directives apart, a report is the report without
directives less what is covered, in the same order; without directives nothing is reported about
them, unless a spawner does so. An answer of the ledger is that of `Covers` after any queries, so it
does not depend on them. A query that silences marks one directive, and one that does not changes
nothing. -/
theorem report_eq_filter_report_empty (i : Inspection) (l : Ledger) :
    (i.report l).filter isProper =
        ((i.report .empty).filter isProper).filter
          (fun f => !decide (l.Covers f.line f.checker)) ∧
      ((∀ s ∈ i.spawners, s.checker ≠ .unusedIgnore) →
        (i.report .empty).filter isProper = i.report .empty) ∧
      (∀ queries line c,
        ((l.afterQueries queries).silence line c).1 = decide (l.Covers line c)) ∧
      ∀ line c, l.silence line c = (false, l) ∨
        ∃ l', l.silence line c = (true, l') ∧ l.SilencedOnce line c l' := by
  refine ⟨?_, ?_, ?_, l.silence_eq⟩
  · rw [filter_isProper_report, filter_isProper_report, filter_inReportOrder]
    simp [Ledger.Covers, Ledger.empty]
  · intro spawners
    refine List.filter_eq_self.2 fun f hf => ?_
    obtain h | h | ⟨s, hs, h⟩ := checker_of_mem_findings (mem_report_empty hf)
    · simp [isProper, h]
    · simp [isProper, h]
    · simp [isProper, h, spawners s hs]
  · intro queries line c
    simp only [Ledger.silence_fst, Ledger.covers_afterQueries]

def ignoredSource : String :=
  "package p\nimport \"context\"\nfunc run(ctx context.Context) \x7b\n" ++
    "\t//ignore goroutine,errgroup\n\tgo func() \x7b\x7d()\n\x7d\n"

set_option maxRecDepth 4000 in
theorem report_eq_filter_report_empty_ignored :
    let root := Syntax.parse ignoredSource
    let i := ofTree .standard root []
    (∀ s ∈ i.spawners, s.checker ≠ .unusedIgnore) ∧
      (i.report .empty).map Finding.checker = [.goroutine] ∧
      (i.report (Ledger.ofTree root)).filter isProper = [] := by
  have spawners : ∀ s ∈ (ofTree .standard (Syntax.parse ignoredSource) []).spawners,
      s.checker ≠ .unusedIgnore := by decide +kernel
  obtain ⟨filtered, whole, -⟩ := report_eq_filter_report_empty
    (ofTree .standard (Syntax.parse ignoredSource) []) (Ledger.ofTree (Syntax.parse ignoredSource))
  refine ⟨spawners, by decide +kernel, ?_⟩
  rw [filtered, whole spawners]
  decide +kernel

end Inspection

end Handoff
