import Handoff.Proofs.Verdict.Reaching

/-!
# Elements of collections

A spread collection passes when its elements do, and the search gathers the elements: those of a
composite literal, the arguments that a call of `append` adds, and what the writes to a variable put
there. A write that appends does not displace earlier ones, so that elements appended to a variable
stay with those it has already. The first argument of `append` is not followed. Where the result
goes back to the same variable, its elements are gathered from the earlier writes; anything else
that is appended to is left out.

## Main definitions

* `Verdict.AtMost`: one answer is no better than another.
* `Search.Gathers`: an element of a collection that the search judges.

## Main statements

* `Search.atMost_collection_iff`: the answer on a collection is the best that is no better than
  those on its elements.
* `Search.collection_append`: the answer on an `append` call, and how it relates to what is appended
  to.
-/

namespace Handoff

open Syntax Node

/-! ### The order of answers -/

namespace Verdict

variable {V : Type} [Verdict V] {a b c v : V} {answers : List V}

/-- The first answer is no better than the second. -/
def AtMost (a b : V) : Prop :=
  both a b = a

/-- Answers of candidates that all have to pass combine in any order, and what is assumed changes
nothing. -/
structure Lawful (V : Type) [Verdict V] : Prop where
  comm : ∀ a b : V, both a b = both b a
  assoc : ∀ a b c : V, both (both a b) c = both a (both b c)
  self : ∀ a : V, both a a = a
  both_assumed : ∀ a : V, both a assumed = a

theorem lawful_bool : Lawful Bool where
  comm := by decide
  assoc := by decide
  self := by decide
  both_assumed := by decide

theorem lawful_outcome : Lawful Outcome where
  comm a b := by cases a <;> cases b <;> rfl
  assoc a b c := by cases a <;> cases b <;> cases c <;> rfl
  self a := by cases a <;> rfl
  both_assumed a := by cases a <;> rfl

namespace Lawful

variable (hV : Lawful V)
include hV

theorem atMost_assumed : AtMost v assumed :=
  hV.both_assumed v

theorem atMost_both : AtMost v (both a b) ↔ AtMost v a ∧ AtMost v b := by
  have hleft : ∀ {a b}, AtMost v (both a b) → AtMost v a := by
    intro a b h
    calc both v a
        = both (both v (both a b)) a := by rw [h]
      _ = both v (both (both a a) b) := by rw [hV.assoc, hV.comm (both a b) a, ← hV.assoc a a b]
      _ = v := by rw [hV.self, h]
  refine ⟨fun h => ⟨hleft h, hleft (hV.comm a b ▸ h)⟩, fun ⟨ha, hb⟩ => ?_⟩
  rw [AtMost, ← hV.assoc, ha, hb]

theorem atMost_all : AtMost v (Verdict.all answers) ↔ ∀ a ∈ answers, AtMost v a := by
  have hfold : ∀ start : V, AtMost v (answers.foldl both start) ↔ AtMost v start ∧
      ∀ a ∈ answers, AtMost v a := by
    induction answers with
    | nil => simp
    | cons a answers ih =>
      intro start
      rw [List.foldl_cons, ih, hV.atMost_both, List.forall_mem_cons, and_assoc]
  rw [Verdict.all, hfold, and_iff_right]
  exact hV.atMost_assumed

end Lawful

end Verdict

theorem Syntax.Node.IsBefore.trans {n m site : Node} (h : n.IsBefore m) (h' : m.IsBefore site) :
    n.IsBefore site := by
  simp only [IsBefore, encloses, Span.contains, start, Bool.and_eq_false_iff,
    decide_eq_false_iff_not] at h h' ⊢
  omega

/-- A write that leaves in a collection what is there: it is conditional or appends. -/
def Write.Adds (r : Resolution) (w : Write) : Prop :=
  w.conditional = true ∨ (w.value.any fun value => Search.isAppend r value.bare) = true

/-- The write that is recorded at a position still counts at a site for what a collection holds: it
is before the site, and the writes before the site that stand after it add to the collection. -/
structure Binding.Contributes (r : Resolution) (b : Binding) (site : Node) (j : Nat)
    (w : Write) : Prop where
  recorded : b.writes[j]? = some w
  before : w.site.IsBefore site
  last : ∀ k v, b.writes[k]? = some v → v.site.IsBefore site →
    (w.site.start < v.site.start ∨ w.site.start = v.site.start ∧ j < k) → v.Adds r

/-- What counts where a collection is added to still counts afterwards, if the writes that start
earlier are over by then. -/
theorem Binding.Contributes.later {r : Resolution} {b : Binding} {site : Node} {j k : Nat}
    {w u : Write} (h : b.Contributes r site j w)
    (hearlier : ∀ t ∈ b.writes, t.site.start ≤ w.site.start → t.site.IsBefore w.site ∨ t.Adds r)
    (hu : b.Contributes r w.site k u) : b.Contributes r site k u := by
  refine ⟨hu.recorded, hu.before.trans h.before, fun l t ht hbefore hafter => ?_⟩
  by_cases hlate : w.site.start < t.site.start ∨ w.site.start = t.site.start ∧ j < l
  · exact h.last l t ht hbefore hlate
  · obtain hover | hadds := hearlier t (List.mem_of_getElem? ht) (by omega)
    · exact hu.last l t ht hover hafter
    · exact hadds

namespace Search

open Verdict (AtMost Lawful)

/-- A place that a search comes to: an expression that is read at a site, inside some variables and
factories, with some levels left. -/
structure Place where
  depth : Nat
  expr : Node
  site : Node
  visited : List Nat

def Place.answer {V : Type} [Verdict V] (p : Place) (r : Resolution) (test : ClosureTest V)
    (goal : Goal) : V :=
  search r test p.depth goal p.expr p.site p.visited

inductive Gathers (r : Resolution) : Place → Place → Prop where
  | element {depth : Nat} {expr site body value : Node} {visited : List Nat} :
      expr.bare.kind = .compositeLiteral → expr.bare.child? .body = some body →
      value ∈ body.parts.filterMap elementValue? →
      Gathers r ⟨depth + 1, expr, site, visited⟩ ⟨depth, value, expr.bare, visited⟩
  | appended {depth : Nat} {expr site argument : Node} {visited : List Nat} :
      isAppend r expr.bare = true → argument ∈ expr.bare.arguments.drop 1 →
        argument.kind ≠ .variadicArgument →
      Gathers r ⟨depth + 1, expr, site, visited⟩ ⟨depth, argument, expr.bare, visited⟩
  | spread {depth : Nat} {expr site argument whole : Node} {visited : List Nat} {e : Place} :
      isAppend r expr.bare = true → argument ∈ expr.bare.arguments.drop 1 →
        argument.kind = .variadicArgument →
      argument.parts.head? = some whole → Gathers r ⟨depth, whole, expr.bare, visited⟩ e →
      Gathers r ⟨depth + 1, expr, site, visited⟩ e
  | written {depth i j : Nat} {expr site value : Node} {visited : List Nat} {b : Binding}
      {w : Write} {e : Place} : expr.bare.kind = .identifier → r.bindingOf expr.bare = some (i, b) →
      (b.kind = .packageVariable ∨ ∃ bySpec, b.kind = .localVariable bySpec) → b.decl.id ∉ visited →
      b.Contributes r site j w → w.value = some value →
      Gathers r ⟨depth, value, w.site, b.decl.id :: visited⟩ e →
      Gathers r ⟨depth + 1, expr, site, visited⟩ e

variable {V : Type} [Verdict V] {r : Resolution} {test : ClosureTest V}
  {wrapper : Option TaskConstructor} {expr site base : Node} {rest : List Node} {visited : List Nat}
    {depth i : Nat} {b : Binding} {v : V}

theorem kind_of_isAppend {call : Node} (h : isAppend r call = true) :
    call.kind = .callExpression := by
  rw [isAppend, Bool.and_eq_true] at h
  exact eq_of_beq h.1

/-! ### One level -/

def appendedAnswer (next : Follow V) (wrapper : Option TaskConstructor) (call : Node)
    (visited : List Nat) (argument : Node) : V :=
  if argument.kind = .variadicArgument then
    match argument.parts.head? with
    | some whole => next (.collection wrapper) whole call visited
    | none => Verdict.assumed
  else next (.ofElement wrapper) argument call visited

theorem search_append (h : isAppend r expr.bare = true) :
    search r test (depth + 1) (.collection wrapper) expr site visited =
      Verdict.all ((expr.bare.arguments.drop 1).map
        (appendedAnswer (search r test depth) wrapper expr.bare visited)) := by
  simp only [search, collectionStep, kind_of_isAppend h, h, if_true]
  rfl

theorem mem_reaching_collectionWrites {s : Supply} : s ∈ reaching (collectionWrites r i b) site ↔
    ∃ j w, b.Contributes r site j w ∧
      s = { Supply.ofWrite w with
        accumulates := w.value.any fun value => isAppend r value.bare } := by
  rw [collectionWrites, mem_reaching_map fun _ => rfl]
  simp only [Supply.replaces, Supply.ofWrite, Bool.and_eq_false_iff, Bool.not_eq_false']
  constructor
  · rintro ⟨j, w, hw, hbefore, hlast, hs⟩
    exact ⟨j, w, ⟨hw, hbefore, hlast⟩, hs⟩
  · rintro ⟨j, w, hcontributes, hs⟩
    exact ⟨j, w, hcontributes.recorded, hcontributes.before, hcontributes.last, hs⟩

section Order

variable (hV : Lawful V)
include hV

theorem atMost_append_iff (h : isAppend r expr.bare = true) :
    AtMost v (search r test (depth + 1) (.collection wrapper) expr site visited) ↔
      ∀ argument ∈ expr.bare.arguments.drop 1,
        AtMost v (appendedAnswer (search r test depth) wrapper expr.bare visited argument) := by
  rw [search_append h, hV.atMost_all, List.forall_mem_map]

theorem atMost_literal_iff (h : expr.bare.kind = .compositeLiteral) :
    AtMost v (search r test (depth + 1) (.collection wrapper) expr site visited) ↔
      ∀ body, expr.bare.child? .body = some body → ∀ value ∈ body.parts.filterMap elementValue?,
        AtMost v (search r test depth (.ofElement wrapper) value expr.bare visited) := by
  simp only [search, collectionStep, h]
  cases expr.bare.child? .body with
  | none => simp [hV.atMost_assumed]
  | some body => simp only [hV.atMost_all, List.forall_mem_map, Option.some.injEq, forall_eq']

/-- The answer on a variable is the best that is no better than those on what contributes to it. -/
theorem atMost_variable_iff (h : expr.bare.kind = .identifier)
    (hb : r.bindingOf expr.bare = some (i, b))
    (hvariable : b.kind = .packageVariable ∨ ∃ bySpec, b.kind = .localVariable bySpec)
    (hvisited : b.decl.id ∉ visited) :
    AtMost v (search r test (depth + 1) (.collection wrapper) expr site visited) ↔
      ∀ j w value, b.Contributes r site j w → w.value = some value →
        AtMost v
          (search r test depth (.collection wrapper) value w.site (b.decl.id :: visited)) := by
  simp only [search, collectionStep, h]
  rw [throughBinding_of_isVariable hb hvariable hvisited, hV.atMost_all, List.forall_mem_map]
  constructor
  · intro hall j w value hcontributes hvalue
    simpa [Supply.ofWrite, hvalue] using hall _
      (mem_reaching_collectionWrites.2 ⟨j, w, hcontributes, rfl⟩)
  · intro hall s hs
    obtain ⟨j, w, hcontributes, rfl⟩ := mem_reaching_collectionWrites.1 hs
    cases hvalue : w.value with
    | none => simpa [Supply.ofWrite, hvalue] using hV.atMost_assumed
    | some value => simpa [Supply.ofWrite, hvalue] using hall j w value hcontributes hvalue

end Order

/-- What is neither a literal, nor `append`, nor a variable that the search may enter passes. -/
theorem collection_eq_assumed (hliteral : expr.bare.kind ≠ .compositeLiteral)
    (happend : isAppend r expr.bare = false)
    (hvariable : expr.bare.kind = .identifier → ∀ i b, r.bindingOf expr.bare = some (i, b) →
      (b.kind = .packageVariable ∨ ∃ bySpec, b.kind = .localVariable bySpec) →
        b.decl.id ∈ visited) :
    search r test (depth + 1) (.collection wrapper) expr site visited = Verdict.assumed := by
  simp only [search, collectionStep]
  split
  next hkind => exact absurd hkind hliteral
  next => rw [if_neg (by simp [happend])]
  next hkind =>
    unfold throughBinding
    cases hb : r.bindingOf expr.bare with
    | none => rfl
    | some found =>
      obtain ⟨i, b⟩ := found
      have hin := hvariable hkind i b hb
      cases hk : b.kind <;> simp_all
  next => rfl

/-! ### All levels -/

/-- The answer on a collection is the best that is no better than the answers on its elements. -/
theorem atMost_collection_iff (hV : Lawful V) :
    AtMost v (search r test depth (.collection wrapper) expr site visited) ↔
      ∀ e, Gathers r ⟨depth, expr, site, visited⟩ e →
        AtMost v (e.answer r test (.ofElement wrapper)) := by
  induction depth generalizing expr site visited with
  | zero =>
    refine ⟨fun _ e he => ?_, fun _ => hV.atMost_assumed⟩
    cases he
  | succ depth ih =>
    constructor
    · -- Each way to gather an element is one level of the search.
      intro h e he
      cases he with
      | element hkind hbody hvalue => exact (atMost_literal_iff hV hkind).1 h _ hbody _ hvalue
      | appended happend hargument hkind =>
        have hanswer := (atMost_append_iff hV happend).1 h _ hargument
        rwa [appendedAnswer, if_neg hkind] at hanswer
      | spread happend hargument hkind hwhole he =>
        have hanswer := (atMost_append_iff hV happend).1 h _ hargument
        rw [appendedAnswer, if_pos hkind, hwhole] at hanswer
        exact ih.1 hanswer e he
      | written hkind hb hvariable hvisited hcontributes hvalue he =>
        exact ih.1
          ((atMost_variable_iff hV hkind hb hvariable hvisited).1 h _ _ _ hcontributes hvalue) e he
    · intro h
      by_cases hliteral : expr.bare.kind = .compositeLiteral
      · exact (atMost_literal_iff hV hliteral).2 fun body hbody value hvalue =>
          h _ (.element hliteral hbody hvalue)
      by_cases happend : isAppend r expr.bare = true
      · refine (atMost_append_iff hV happend).2 fun argument hargument => ?_
        unfold appendedAnswer
        split
        next hkind =>
          split
          next whole hwhole =>
            exact ih.2 fun e he => h e (.spread happend hargument hkind hwhole he)
          next => exact hV.atMost_assumed
        next hkind => exact h _ (.appended happend hargument hkind)
      by_cases hvariable : expr.bare.kind = .identifier ∧
          ∃ i b, r.bindingOf expr.bare = some (i, b) ∧
            (b.kind = .packageVariable ∨ ∃ bySpec, b.kind = .localVariable bySpec) ∧
              b.decl.id ∉ visited
      · obtain ⟨hkind, i, b, hb, hvariable, hvisited⟩ := hvariable
        exact (atMost_variable_iff hV hkind hb hvariable hvisited).2
          fun j w value hcontributes hvalue => ih.2 fun e he =>
            h e (.written hkind hb hvariable hvisited hcontributes hvalue he)
      · rw [collection_eq_assumed hliteral (by simpa using happend) fun hkind i b hb hk =>
          by_contra fun hvisited => hvariable ⟨hkind, i, b, hb, hk, hvisited⟩]
        exact hV.atMost_assumed

/-- The answer on a call of `append` is that on the elements it adds. What it adds them to makes no
difference, so that combining the answers on both gives the same only if no element that is gathered
from there does worse than the added ones. But when the result goes back to the variable that is
added to, the variable does no better than before, nor than the added elements. -/
theorem collection_append (hV : Lawful V) (test : ClosureTest V) (wrapper : Option TaskConstructor)
    (happend : isAppend r expr.bare = true) (hargs : expr.bare.arguments = base :: rest)
    (depth : Nat) (site : Node) (visited : List Nat) :
    let next := search r test depth
    let added := Verdict.all (rest.map (appendedAnswer next wrapper expr.bare visited))
    let whole := search r test (depth + 1) (.collection wrapper) expr site visited
    whole = added ∧
    (whole = Verdict.both (next (.collection wrapper) base expr.bare visited) added ↔
      ∀ e, Gathers r ⟨depth, base, expr.bare, visited⟩ e →
        AtMost added (e.answer r test (.ofElement wrapper))) ∧
    ∀ (name : Node) (i j : Nat) (b : Binding) (w : Write), name.bare.kind = .identifier →
      base.bare.kind = .identifier → r.bindingOf name.bare = some (i, b) →
        r.bindingOf base.bare = some (i, b) →
      (b.kind = .packageVariable ∨ ∃ bySpec, b.kind = .localVariable bySpec) → b.decl.id ∉ visited →
      w.value = some expr → b.Contributes r site j w →
      (∀ t ∈ b.writes, t.site.start ≤ w.site.start → t.site.IsBefore w.site ∨ t.Adds r) →
      AtMost (search r test (depth + 2) (.collection wrapper) name site visited)
        (Verdict.both (search r test (depth + 2) (.collection wrapper) base w.site visited)
          (search r test (depth + 1) (.collection wrapper) expr w.site
            (b.decl.id :: visited))) := by
  intro next added whole
  have hwhole : whole = added := by
    rw [show whole = _ from search_append happend, hargs]
    rfl
  refine ⟨hwhole, ?_, ?_⟩
  · rw [hwhole, hV.comm, ← atMost_collection_iff hV]
    exact eq_comm
  · intro name i j b w hname hbase hb hb' hvariable hvisited hvalue hcontributes hearlier
    refine hV.atMost_both.2 ⟨(atMost_collection_iff hV).2 fun e he => ?_, ?_⟩
    · -- What is gathered from the variable at the write is gathered through one of its earlier
      -- writes.
      refine (atMost_collection_iff hV).1 (hV.self _) e ?_
      cases he with
      | element hkind => cases hkind.symm.trans hbase
      | appended happend => cases (kind_of_isAppend happend).symm.trans hbase
      | spread happend => cases (kind_of_isAppend happend).symm.trans hbase
      | written _ hb'' hvariable hvisited hu hvalue he =>
        obtain ⟨rfl, rfl⟩ := Prod.mk.inj (Option.some.inj (hb'.symm.trans hb''))
        exact .written hname hb hvariable hvisited (hcontributes.later hearlier hu) hvalue he
    · exact (atMost_variable_iff hV hname hb hvariable hvisited).1
        (hV.self _) j w expr hcontributes hvalue

/-- Closures that lack a context are in a collection before one with a context is added, once to a
variable and once to a literal. -/
def addedClosures : String :=
  "package p\nimport \"context\"\nfunc run(ctx context.Context) \x7b\n" ++
    "\tfs := []func()\x7bfunc() \x7b\x7d\x7d\n\tfs = append(fs, func() \x7b _ = ctx \x7d)\n" ++
    "\tspawn(fs...)\n" ++
    "\tspawn(append([]func()\x7bfunc() \x7b\x7d\x7d, func() \x7b _ = ctx \x7d)...)\n\x7d\n"

set_option maxRecDepth 4000 in
/-- The variable fails, since it failed before. -/
theorem collection_append_addedClosures :
    let r := Resolution.ofFile (parse addedClosures)
    ∃ (expr base name site : Node) (rest : List Node) (w : Write), isAppend r expr.bare = true ∧
      expr.bare.arguments = base :: rest ∧ w.value = some expr ∧
      search r (captureTest r []) 16 (.collection none) expr w.site [] = true ∧
      search r (captureTest r []) 17 (.collection none) base w.site [] = false ∧
      search r (captureTest r []) 17 (.collection none) name site [] = false := by
  intro r
  have hrun :
      r.root.preorder.any (fun site => site.kind == .callExpression && site.preorder.any fun name =>
        name.bare.kind == .identifier && (r.bindingOf name.bare).any fun e =>
          e.2.kind.isLocal && (reaching (collectionWrites r e.1 e.2) site).any fun s =>
            s.value.any fun expr => isAppend r expr.bare && expr.bare.arguments.head?.any
              fun base => base.bare.kind == .identifier && r.useOf base.bare == some e.1 &&
            (e.2.writes.all fun t => decide (s.site.start < t.site.start) ||
              (decide (t.site.start < s.site.start) && !t.site.encloses s.site) ||
              t.value.any fun value => isAppend r value.bare) &&
            search r (captureTest r []) 16 (.collection none) expr s.site [] &&
            !search r (captureTest r []) 17 (.collection none) base s.site []) = true := by
    decide +kernel
  simp only [List.any_eq_true, Option.any_eq_true, Bool.and_eq_true, Bool.or_eq_true,
    Bool.not_eq_true', beq_iff_eq, List.all_eq_true, decide_eq_true_eq] at hrun
  obtain ⟨site, -, -, name, -, hname, ⟨i, b⟩, hb, hlocal, s, hs, expr, hvalue, happend, base, hbase,
    ⟨⟨⟨hkind, huse⟩, hearlier⟩, hwhole⟩, hbelow⟩ := hrun
  obtain ⟨j, w, hcontributes, rfl⟩ := mem_reaching_collectionWrites.1 hs
  obtain ⟨rest, hargs⟩ := List.head?_eq_some_iff.1 hbase
  have hb' : r.bindingOf base.bare = some (i, b) :=
    Resolution.bindingOf_eq_some.2 ⟨huse, (Resolution.bindingOf_eq_some.1 hb).2⟩
  have hvariable : b.kind = .packageVariable ∨ ∃ bySpec, b.kind = .localVariable bySpec := by
    cases hk : b.kind <;> simp_all [BindingKind.isLocal]
  have hover : ∀ t ∈ b.writes, t.site.start ≤ w.site.start → t.site.IsBefore w.site ∨ t.Adds r := by
    intro t ht hle
    obtain (hlate | hover) | happends := hearlier t ht
    · exact absurd hle (Nat.not_le.2 hlate)
    · exact .inl hover
    · exact .inr (.inr ((Option.any_eq_true _ _).2 happends))
  have hall :=
    (collection_append Verdict.lawful_bool (captureTest r []) none happend hargs 15 site []).2.2
      name i j b w hname hkind hb hb' hvariable List.not_mem_nil hvalue hcontributes hover
  refine ⟨expr, base, name, site, rest, w, happend, hargs, hvalue, hwhole, hbelow, ?_⟩
  rw [show search r (captureTest r []) (15 + 2) (.collection none) base w.site [] =
    false from hbelow] at hall
  exact hall.symm.trans (Bool.and_false _)

set_option maxRecDepth 4000 in
/-- The call that adds to the literal passes, although the closure in the literal fails. -/
theorem passing_append_addedClosures :
    let r := Resolution.ofFile (parse addedClosures)
    ∃ (expr base : Node) (rest : List Node), isAppend r expr.bare = true ∧
      expr.bare.arguments = base :: rest ∧ base.kind = .compositeLiteral ∧
      search r (captureTest r []) maxDepth (.collection none) expr expr [] ≠
        Verdict.both (search r (captureTest r []) 16 (.collection none) base expr.bare [])
          (Verdict.all
            (rest.map (appendedAnswer (search r (captureTest r []) 16) none expr.bare []))) := by
  intro r
  have hrun : r.root.preorder.any (fun expr => isAppend r expr.bare &&
      expr.bare.arguments.head?.any fun base => base.kind == .compositeLiteral &&
        search r (captureTest r []) maxDepth (.collection none) expr expr [] &&
        !search r (captureTest r []) 16 (.collection none) base expr.bare []) = true := by
    decide +kernel
  simp only [List.any_eq_true, Option.any_eq_true, Bool.and_eq_true, Bool.not_eq_true',
    beq_iff_eq] at hrun
  obtain ⟨expr, -, happend, base, hbase, ⟨hkind, hwhole⟩, hbelow⟩ := hrun
  obtain ⟨rest, hargs⟩ := List.head?_eq_some_iff.1 hbase
  refine ⟨expr, base, rest, happend, hargs, hkind, ?_⟩
  rw [hwhole, hbelow]
  exact Bool.noConfusion

end Search

end Handoff
