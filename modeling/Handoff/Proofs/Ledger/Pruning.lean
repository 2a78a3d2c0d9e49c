import Handoff.Proofs.Ledger.Suppression

/-!
# Directives that may be deleted

After a run the ledger reports directives that silenced nothing and names that did nothing in the
list of a directive. All of them may be deleted at once: the same queries then get the same answers.
A query that is silenced leaves a mark on the directive that covers it, and what is marked is not
reported.

## Main definitions

* `Ledger.answers`: the answers to a sequence of queries.
* `Ledger.prune`: the ledger without the directives and names that were reported.
-/

namespace Handoff

def DirectiveProblem.name? : DirectiveProblem → Option String
  | .unusedFor c | .notEnabled c => some c.name
  | .unknownChecker name => some name
  | .malformed | .unused => none

namespace Directive

variable {d e : Directive} {c : Checker} {enabled : CheckerSet} {p : DirectiveProblem}

/-- The directive with only some of the names in its list. A list may become empty, but stays a
list. -/
def keepNames (keep : String → Bool) (d : Directive) : Directive :=
  { d with checkers := d.checkers.map (List.filter keep) }

/-- The same directive, perhaps after it silenced more. -/
structure Extends (d e : Directive) : Prop where
  line : e.line = d.line
  checkers : e.checkers = d.checkers
  malformed : e.malformed = d.malformed
  used : ∀ c, d.used.has c = true → e.used.has c = true

theorem Extends.refl (d : Directive) : d.Extends d :=
  ⟨rfl, rfl, rfl, fun _ => id⟩

theorem Extends.trans {f : Directive} (h : d.Extends e) (h' : e.Extends f) : d.Extends f :=
  ⟨h'.line.trans h.line, h'.checkers.trans h.checkers, h'.malformed.trans h.malformed,
    fun c hc => h'.used c (h.used c hc)⟩

theorem extends_use (c : Checker) (d : Directive) : d.Extends (d.use c) :=
  ⟨rfl, rfl, rfl, fun _ h => by simp [use, h]⟩

theorem Extends.covers_eq (h : d.Extends e) (c : Checker) : e.covers c = d.covers c := by
  simp [covers, h.checkers, h.malformed]

theorem covers_of_covers_keepNames {keep : String → Bool} (h : (d.keepNames keep).covers c = true) :
    d.covers c = true := by
  unfold covers keepNames at *
  cases hnames : d.checkers with
  | none => simpa [hnames] using h
  | some names =>
    simp only [hnames, Option.map_some, List.contains_eq_mem, List.mem_filter,
      decide_eq_true_eq] at h ⊢
    exact h.1

theorem covers_keepNames {keep : String → Bool} (h : d.covers c = true)
    (hkeep : keep c.name = true) : (d.keepNames keep).covers c = true := by
  unfold covers keepNames at *
  cases hnames : d.checkers with
  | none => simpa [hnames] using h
  | some names =>
    simp only [hnames, Option.map_some, List.contains_eq_mem, List.mem_filter,
      decide_eq_true_eq] at h ⊢
    exact ⟨h, hkeep⟩

/-- The problem with a name is about that name. -/
theorem name?_of_problemWith {name : String} (h : d.problemWith enabled name = some p) :
    p.name? = some name := by
  unfold problemWith at h
  split at h
  · cases h
    rfl
  next c hc =>
    have hname := Checker.name_of_named hc
    split at h
    · cases h
      exact congrArg some hname
    · split at h
      · cases h
        exact congrArg some hname
      · cases h

/-- A directive that silenced a checker is not reported as unused. -/
theorem not_unused_of_used (hused : d.used.has c = true) : .unused ∉ d.problems enabled := by
  intro h
  have hlist : c ∈ d.used.toList := CheckerSet.mem_toList.2 hused
  have hisUsed : d.isUsed = true := by
    unfold isUsed
    cases hnil : d.used.toList with
    | nil => simp [hnil] at hlist
    | cons => rfl
  obtain h | h := List.mem_append.1 h
  · split at h <;> simp at h
  · split at h
    · simp [hisUsed] at h
    next names _ =>
      obtain ⟨name, -, h⟩ := List.mem_filterMap.1 h
      cases name?_of_problemWith h

/-- The name of an enabled checker that a directive silenced is not reported. -/
theorem name?_ne_of_used (henabled : enabled.has c = true) (hused : d.used.has c = true)
    (hp : p ∈ d.problems enabled) : p.name? ≠ some c.name := by
  intro hname
  obtain h | h := List.mem_append.1 hp
  · split at h
    · obtain rfl := List.mem_singleton.1 h
      cases hname
    · cases h
  · split at h
    · split at h
      · obtain rfl := List.mem_singleton.1 h
        cases hname
      · cases h
    next names _ =>
      obtain ⟨name, -, h⟩ := List.mem_filterMap.1 h
      obtain rfl : name = c.name := Option.some.inj ((name?_of_problemWith h).symm.trans hname)
      simp [problemWith, henabled, hused] at h

end Directive

namespace Ledger

variable {l : Ledger} {queries : List (Nat × Checker)} {line : Nat} {c : Checker}

def answers (l : Ledger) : List (Nat × Checker) → List Bool
  | [] => []
  | q :: queries => (l.silence q.1 q.2).1 :: (l.silence q.1 q.2).2.answers queries

def reportedNames (reported : List (Directive × DirectiveProblem)) (line : Nat) : List String :=
  (reported.filter fun r => r.1.line == line).filterMap fun r => r.2.name?

def isReportedUnused (reported : List (Directive × DirectiveProblem)) (line : Nat) : Bool :=
  reported.any fun r => r.1.line == line && r.2 == .unused

/-- The ledger without the directives that were reported as unused and, in the lists of the others,
without the names that were reported. -/
def prune (l : Ledger) (reported : List (Directive × DirectiveProblem)) : Ledger where
  directives := (l.directives.filter fun d => !isReportedUnused reported d.line).map fun d =>
    d.keepNames fun name => !(reportedNames reported d.line).contains name
  marks := l.marks
  distinct := List.pairwise_map.2 (l.distinct.sublist List.filter_sublist)

theorem answers_eq_map (l : Ledger) (queries : List (Nat × Checker)) :
    l.answers queries = queries.map fun q => decide (l.Covers q.1 q.2) := by
  induction queries generalizing l with
  | nil => rfl
  | cons q queries ih => simp only [answers, silence_fst, ih, covers_silence, List.map_cons]

/-! ### Marks -/

def Extends (l l' : Ledger) : Prop :=
  ∃ later : Directive → Directive, l'.directives = l.directives.map later ∧
    ∀ d : Directive, d.Extends (later d)

theorem Extends.refl (l : Ledger) : l.Extends l :=
  ⟨id, (List.map_id _).symm, .refl⟩

theorem Extends.trans {l' l'' : Ledger} (h : l.Extends l') (h' : l'.Extends l'') :
    l.Extends l'' := by
  obtain ⟨later, heq, hext⟩ := h
  obtain ⟨later', heq', hext'⟩ := h'
  exact ⟨later' ∘ later, by rw [heq', heq, List.map_map], fun d => (hext d).trans (hext' _)⟩

/-- What a directive has silenced, it still has silenced later. -/
theorem Extends.exists_used {l' : Ledger} (h : l.Extends l') {d : Directive} (hd : d ∈ l.directives)
    (hused : d.used.has c = true) :
    ∃ e ∈ l'.directives, d.Extends e ∧ e.used.has c = true := by
  obtain ⟨later, heq, hext⟩ := h
  exact ⟨later d, heq ▸ List.mem_map_of_mem hd, hext d, (hext d).used c hused⟩

theorem extends_use (l : Ledger) (line : Nat) (c : Checker) : l.Extends (l.use line c) := by
  refine ⟨fun d => if d.line = line then d.use c else d, rfl, fun d => ?_⟩
  dsimp only
  split
  · exact d.extends_use c
  · exact .refl d

theorem extends_silence (l : Ledger) (line : Nat) (c : Checker) :
    l.Extends (l.silence line c).2 := by
  obtain ⟨-, h⟩ | ⟨d, -, -, -, h⟩ := l.silence_cases line c <;> rw [h]
  · exact .refl l
  · exact extends_use l d.line c

/-- Queries leave the directives what they are and only add to what these silenced. -/
theorem extends_afterQueries (l : Ledger) (queries : List (Nat × Checker)) :
    l.Extends (l.afterQueries queries) := by
  induction queries generalizing l with
  | nil => exact .refl l
  | cons q queries ih => exact (extends_silence l q.1 q.2).trans (ih _)

/-- A query that is silenced leaves a mark on a directive that covers it. -/
theorem exists_used_silence (h : l.Covers line c) :
    ∃ d ∈ (l.silence line c).2.directives,
      (d.line = line ∨ d.line + 1 = line) ∧ d.covers c = true ∧ d.used.has c = true := by
  obtain ⟨hnot, -⟩ | ⟨d, hd, hcovers, hline, hsilence⟩ := l.silence_cases line c
  · exact absurd h hnot
  · refine ⟨d.use c, ?_, hline.imp id And.left, hcovers, by simp [Directive.use]⟩
    rw [hsilence]
    exact List.mem_map.2 ⟨d, hd, if_pos rfl⟩

/-- After a run, each query that was silenced has its mark. -/
theorem exists_used_afterQueries {q : Nat × Checker} (hq : q ∈ queries) (h : l.Covers q.1 q.2) :
    ∃ d ∈ (l.afterQueries queries).directives,
      (d.line = q.1 ∨ d.line + 1 = q.1) ∧ d.covers q.2 = true ∧ d.used.has q.2 = true := by
  induction queries generalizing l with
  | nil => cases hq
  | cons q' queries ih =>
    obtain rfl | hq := List.mem_cons.1 hq
    · obtain ⟨d, hd, hline, hcovers, hused⟩ := exists_used_silence h
      obtain ⟨e, he, hext, hused⟩ := (extends_afterQueries _ queries).exists_used hd hused
      exact ⟨e, he, hext.line ▸ hline, (hext.covers_eq q.2).trans hcovers, hused⟩
    · exact ih hq (covers_silence.2 h)

/-! ### Pruning -/

theorem covers_of_covers_prune {reported : List (Directive × DirectiveProblem)}
    (h : (l.prune reported).Covers line c) : l.Covers line c := by
  obtain ⟨kept, hkept, hline, hcovers⟩ := h
  obtain ⟨d, hd, rfl⟩ := List.mem_map.1 hkept
  exact ⟨d, List.mem_of_mem_filter hd, hline, Directive.covers_of_covers_keepNames hcovers⟩

theorem mem_problems {enabled : CheckerSet} {r : Directive × DirectiveProblem} :
    r ∈ l.problems enabled ↔ r.1 ∈ l.directives ∧ r.2 ∈ r.1.problems enabled := by
  obtain ⟨d, p⟩ := r
  simp only [problems, List.mem_flatMap, List.mem_map, Prod.mk.injEq]
  constructor
  · rintro ⟨_, hd, _, hp, rfl, rfl⟩
    exact ⟨hd, hp⟩
  · rintro ⟨hd, hp⟩
    exact ⟨d, hd, p, hp, rfl, rfl⟩

/-- A directive that silenced an enabled checker stays, and stays to cover it. -/
theorem covers_prune {l' : Ledger} {enabled : CheckerSet} {e : Directive} (hext : l.Extends l')
    (he : e ∈ l'.directives) (hline : e.line = line ∨ e.line + 1 = line)
    (hcovers : e.covers c = true) (hused : e.used.has c = true) (henabled : enabled.has c = true) :
    (l.prune (l'.problems enabled)).Covers line c := by
  obtain ⟨later, heq, hext⟩ := hext
  obtain ⟨d, hd, rfl⟩ := List.mem_map.1 (heq ▸ he)
  have hsame := (hext d).line
  -- what is reported for this line is about this directive
  have hreported : ∀ r ∈ l'.problems enabled, r.1.line = d.line →
      r.2 ∈ (later d).problems enabled := by
    intro r hr hr1
    obtain ⟨hmem, hp⟩ := mem_problems.1 hr
    rwa [eq_of_line_eq hmem he (hr1.trans hsame.symm)] at hp
  have hkept : isReportedUnused (l'.problems enabled) d.line = false := by
    refine List.any_eq_false.2 fun r hr h => ?_
    obtain ⟨hr1, hr2⟩ := Bool.and_eq_true_iff.1 h
    have hp := hreported r hr (eq_of_beq hr1)
    rw [eq_of_beq hr2] at hp
    exact Directive.not_unused_of_used hused hp
  have hname : (reportedNames (l'.problems enabled) d.line).contains c.name = false := by
    simp only [reportedNames, List.contains_eq_mem, decide_eq_false_iff_not, List.mem_filterMap,
      List.mem_filter, beq_iff_eq]
    rintro ⟨r, ⟨hr, hr1⟩, hr2⟩
    exact Directive.name?_ne_of_used henabled hused (hreported r hr hr1) hr2
  refine ⟨_, List.mem_map_of_mem (List.mem_filter.2 ⟨hd, by rw [hkept]; rfl⟩), hsame ▸ hline, ?_⟩
  exact Directive.covers_keepNames ((hext d).covers_eq c ▸ hcovers) (by rw [hname]; rfl)

/-- Reported directives are dead. After any queries for enabled checkers, delete the directives that
are reported as unused and the names that are reported in the lists of the others. Replayed on what
is left, the queries get the same answers. -/
theorem answers_prune (l : Ledger) (enabled : CheckerSet) (queries : List (Nat × Checker))
    (henabled : ∀ q ∈ queries, enabled.has q.2 = true) :
    (l.prune ((l.afterQueries queries).problems enabled)).answers queries = l.answers queries := by
  rw [answers_eq_map, answers_eq_map]
  refine List.map_congr_left fun q hq => decide_eq_decide.2 ⟨covers_of_covers_prune, fun h => ?_⟩
  obtain ⟨d, hd, hline, hcovers, hused⟩ := exists_used_afterQueries hq h
  exact covers_prune (extends_afterQueries l queries) hd hline hcovers hused (henabled q hq)

/-- Three directives: one for everything that has nothing to do, one that names a checker which it
silences, one which is not enabled, one which has nothing to do there and one which does not exist,
and one for everything. -/
def deadDirectives : String :=
  "package p\n//ignore\n\n//ignore goroutine,gotask,errgroup,all\ngo f()\n//ignore\ng.Go(f)\n"

theorem answers_prune_deadDirectives :
    let l := ofTree (Syntax.parse deadDirectives)
    let enabled := CheckerSet.all.erase .gotask
    let queries := [(5, Checker.goroutine), (7, .errgroup), (5, .waitgroup)]
    let pruned := l.prune ((l.afterQueries queries).problems enabled)
    (∀ q ∈ queries, enabled.has q.2 = true) ∧
      ((l.afterQueries queries).problems enabled).map Prod.snd =
        [.unused, .notEnabled .gotask, .unusedFor .errgroup, .unknownChecker "all"] ∧
      l.directives.map (fun d => (d.line, d.checkers)) =
        [(2, none), (4, some ["goroutine", "gotask", "errgroup", "all"]), (6, none)] ∧
      pruned.directives.map (fun d => (d.line, d.checkers)) = [(4, some ["goroutine"]), (6, none)] ∧
      pruned.answers queries = [true, true, false] := by
  intro l enabled queries pruned
  have henabled : ∀ q ∈ queries, enabled.has q.2 = true := by decide
  obtain ⟨hproblems, hdirectives, hpruned, hanswers⟩ :
      ((l.afterQueries queries).problems enabled).map Prod.snd =
          [.unused, .notEnabled .gotask, .unusedFor .errgroup, .unknownChecker "all"] ∧
        l.directives.map (fun d => (d.line, d.checkers)) =
          [(2, none), (4, some ["goroutine", "gotask", "errgroup", "all"]), (6, none)] ∧
        pruned.directives.map (fun d => (d.line, d.checkers)) =
          [(4, some ["goroutine"]), (6, none)] ∧
        l.answers queries = [true, true, false] := by
    decide +kernel
  exact ⟨henabled, hproblems, hdirectives, hpruned,
    (answers_prune l enabled queries henabled).trans hanswers⟩

end Ledger

end Handoff
