import Handoff.Proofs.Closure.Calls

/-!
# Statements behind a `return`

Statements stand in a list, that of a block or that of a case clause. What comes after a `return` in
the list of a block is not reached, and none of its calls is listed, however deep the block lies in
the body. The list of a clause is not cut: each of its statements adds its calls, whatever stands
before it.

## Main definitions

* `Node.statements`: the statements of a block or of a clause.
* `Node.AfterReturn`: a node is in a statement with a `return` before it in a list.

## Main statement

* `CallSite.unreached_of_afterReturn`: which calls behind a `return` are listed.
-/

namespace Handoff

open Syntax Node

variable {n c s t : Node}

namespace Syntax.Node

/-- The statements of a block or of a clause. What a clause holds in a field stands before its
colon. -/
def statements (n : Node) : List Node :=
  if n.kind = .block then n.parts
  else if n.kind.isClause then n.parts.filter (·.field.isNone)
  else []

def AfterReturn (n c : Node) : Prop :=
  ∃ t s, [t, s].Sublist n.statements ∧ t.kind = .returnStatement ∧ c ∈ s.preorder

theorem statements_of_block (h : n.kind = .block) : n.statements = n.parts :=
  if_pos h

theorem statements_sublist (n : Node) : n.statements.Sublist n.parts := by
  unfold statements
  split
  · exact .refl _
  · split
    · exact List.filter_sublist
    · exact List.nil_sublist _

theorem AfterReturn.inner (h : n.AfterReturn c) : c ∈ n.inner := by
  obtain ⟨t, s, hlist, -, hc⟩ := h
  have hs : s ∈ n.parts := (hlist.trans (statements_sublist n)).subset (by simp)
  exact inner_of_preorder (inner_of_mem_filter hs) hc

/-- Of two parts, only one holds a node. -/
theorem Distinct.part_eq (h : n.Distinct) (hs : s ∈ n.parts) (ht : t ∈ n.parts)
    (hcs : c ∈ s.preorder) (hct : c ∈ t.preorder) : s = t := by
  by_contra hne
  exact h.apart (self_mem_preorder n) (List.mem_of_mem_filter hs)
    (List.mem_of_mem_filter ht) hne c hcs hct

end Syntax.Node

namespace CallSite

/-- Only calls that a body makes are listed. -/
theorem makes_of_mem_within {deferred : Bool} {site : CallSite} (wf : n.WellFormed)
    (h : site ∈ within deferred n) : Makes n site.call := by
  by_contra hmakes
  have hnone := (entriesOf_within wf (mem_of_mem_within h) deferred).2 hmakes
  simpa using List.filter_eq_nil_iff.1 hnone site h

/-- A block lets no call through that comes after a `return`. -/
theorem Allows.not_afterReturn {body : Node} (wf : n.WellFormed) (hblock : n.kind = .block)
    (h : Allows body n c) : ¬ n.AfterReturn c := by
  rintro ⟨t, s, hlist, hreturn, hc⟩
  rw [statements_of_block hblock] at hlist
  obtain ⟨s', hs', hc', hbefore⟩ := h.block hblock
  obtain rfl := wf.distinct.part_eq hs' (hlist.subset (by simp)) hc' hc
  exact hbefore t hlist hreturn

/-- A clause enters all its parts. -/
theorem entered_of_isClause (h : n.kind.isClause = true) : entered n = n.parts := by
  refine entered_eq_parts ?_ ?_ ?_ ?_ ?_ <;> intro hkind <;> simp [hkind, Kind.isClause] at h

/-- A clause lists of each of its statements the calls that the statement lists. -/
theorem entriesOf_within_clause (wf : n.WellFormed) (hclause : n.kind.isClause = true)
    (hs : s ∈ n.statements) (hc : c ∈ s.preorder) (deferred : Bool) :
    entriesOf c (within deferred n) = entriesOf c (within deferred s) := by
  have hs := (statements_sublist n).subset hs
  have hentered := entered_of_isClause hclause
  have hdefer : n.kind ≠ .deferStatement := fun hkind => by simp [hkind, Kind.isClause] at hclause
  have hflag : (deferred || decide (n.kind = .deferStatement)) = deferred := by simp [hdefer]
  rw [entriesOf_within_inner wf (inner_of_preorder (inner_of_mem_filter hs) hc), hflag]
  exact entriesOf_flatMap wf.distinct (entered_subset n) (fun _ _ _ => mem_of_mem_within)
    (pairwise_apart_entered wf) (hentered ▸ hs) hc

/-- Calls behind a `return` of a block are not listed. A clause lists the calls of all its
statements, behind a `return` or not. -/
theorem unreached_of_afterReturn {body : Node} (wf : body.WellFormed) (hn : n ∈ body.preorder) :
    (n.kind = .block → ∀ site ∈ ofBody body, ¬ n.AfterReturn site.call) ∧
    (n.kind.isClause = true → ∀ s ∈ n.statements, ∀ c ∈ s.preorder, ∀ deferred,
      entriesOf c (within deferred n) = entriesOf c (within deferred s)) := by
  refine ⟨fun hblock site hsite hafter => ?_, fun hclause s hs c hc => ?_⟩
  · have hmakes := makes_of_mem_within wf hsite
    exact (hmakes.allowed n hn hafter.inner).not_afterReturn (wf.of_mem hn) hblock hafter
  · exact entriesOf_within_clause (wf.of_mem hn) hclause hs hc

def returnsEarly : String :=
  "package p\nfunc run(x int) \x7b\n\tif x > 0 \x7b\n\t\treturn\n\t\tg()\n\t\x7d\n" ++
    "\tswitch x \x7b\n\tcase 1:\n\t\treturn\n\t\tf()\n\t\x7d\n\x7d\n"

/-- Whether some body has a list of statements with a call behind a `return`, such that they pass a
test. -/
def returnsBefore (root : Node) (test : Node → Node → Node → Bool) : Bool :=
  root.preorder.any fun body => body.kind == .block && body.preorder.any fun n =>
    (n.statements.dropWhile (·.kind != .returnStatement)).tail.any fun s => s.preorder.any fun c =>
      c.kind == .callExpression && test body n c

theorem exists_of_returnsBefore {root : Node} {test : Node → Node → Node → Bool}
    (h : returnsBefore root test = true) :
    ∃ body n c, body ∈ root.preorder ∧ body.kind = .block ∧ n ∈ body.preorder ∧ n.AfterReturn c ∧
      c.kind = .callExpression ∧ test body n c = true := by
  simp only [returnsBefore, List.any_eq_true, Bool.and_eq_true, beq_iff_eq] at h
  obtain ⟨body, hbody, hkind, n, hn, s, hs, c, hc, hcall, htest⟩ := h
  refine ⟨body, n, c, hbody, hkind, hn, ?_, hcall, htest⟩
  cases hrest : n.statements.dropWhile (·.kind != .returnStatement) with
  | nil => simp [hrest] at hs
  | cons t rest =>
    rw [hrest, List.tail_cons] at hs
    have hreturn : t.kind = .returnStatement := by
      have := List.head?_dropWhile_not (fun s : Node => s.kind != .returnStatement) n.statements
      simpa [hrest] using this
    have hlist : (t :: rest).Sublist n.statements := hrest ▸ List.dropWhile_sublist _
    exact ⟨t, s, ((List.singleton_sublist.2 hs).cons_cons t).trans hlist, hreturn, hc⟩

set_option maxRecDepth 4000 in
theorem unreached_of_afterReturn_returnsEarly :
    ∃ body n c, body ∈ (parse returnsEarly).preorder ∧ n ∈ body.preorder ∧ n.kind = .block ∧
      n.AfterReturn c ∧ c.kind = .callExpression ∧ ∀ site ∈ ofBody body, site.call ≠ c := by
  have hfound : returnsBefore (parse returnsEarly) (fun _ n _ => n.kind == .block) = true := by
    decide +kernel
  obtain ⟨body, n, c, hbody, -, hn, hafter, hcall, hblock⟩ := exists_of_returnsBefore hfound
  have hblock := eq_of_beq hblock
  have wf := (parse_wellFormed returnsEarly).of_mem hbody
  refine ⟨body, n, c, hbody, hn, hblock, hafter, hcall, fun site hsite heq => ?_⟩
  exact (unreached_of_afterReturn wf hn).1 hblock site hsite (heq ▸ hafter)

set_option maxRecDepth 4000 in
/-- The call behind the `return` of the clause is listed. -/
theorem reached_of_afterReturn_returnsEarly :
    ∃ body n, body ∈ (parse returnsEarly).preorder ∧ body.kind = .block ∧ n ∈ body.preorder ∧
      n.kind.isClause = true ∧ ∃ site ∈ ofBody body, n.AfterReturn site.call := by
  have hfound : returnsBefore (parse returnsEarly) (fun body n c => n.kind.isClause &&
      (ofBody body).any (·.call.id == c.id)) = true := by
    decide +kernel
  obtain ⟨body, n, c, hbody, hkind, hn, hafter, -, htest⟩ := exists_of_returnsBefore hfound
  simp only [Bool.and_eq_true, List.any_eq_true, beq_iff_eq] at htest
  obtain ⟨hclause, site, hsite, hid⟩ := htest
  have wf := (parse_wellFormed returnsEarly).of_mem hbody
  have hc : c ∈ body.preorder := preorder_trans hn (preorder_of_inner hafter.inner)
  obtain rfl := wf.distinct.eq_of_id (mem_of_mem_within hsite) hc hid
  exact ⟨body, n, hbody, hkind, hn, hclause, site, hsite, hafter⟩

end CallSite

end Handoff
