import Handoff.Proofs.Resolution.Visit

/-!
# Names that are given values

A file gives values to names by short declarations, by assignments with `=`, by specs of variables
and constants, and by range and receive clauses. A name is given a value by one of these only: the
first node above it that is neither a list, nor parentheses, nor a spec.

## Main definitions

* `Node.assignments`: the names that a node gives values.
* `Assignment.hasValue`: the value stands in the statement or spec.

## Main statement

* `Node.holder_name`: a name is given a value by one node only.
-/

namespace Handoff

open Syntax Node

variable {root n c p x e left : Node}

namespace Syntax

/-- A name that is given a value, with the statement, spec or clause that gives it. -/
structure Assignment where
  site : Node
  name : Node

/-- Whether the value stands in the statement or spec. A clause takes values from elsewhere, and a
spec without values leaves its names with the value that their type starts with. -/
def Assignment.hasValue (a : Assignment) : Bool :=
  match a.site.kind with
  | .rangeClause | .receiveStatement => false
  | .varSpec | .constSpec => !(Resolver.valuesIn a.site .value).isEmpty
  | _ => true

def Kind.assigns : Kind → Bool
  | .shortVarDeclaration | .assignmentStatement | .varDeclaration | .constDeclaration | .rangeClause
  | .receiveStatement => true
  | _ => false

/-- What stands between a statement and the names that it gives values. -/
def Kind.isWrapper : Kind → Bool
  | .expressionList | .parenthesizedExpression | .varSpec | .constSpec => true
  | _ => false

theorem Assignment.hasValue_of_spec {a : Assignment} (h : Resolver.isValueSpec a.site = true) :
    a.hasValue = !(Resolver.valuesIn a.site .value).isEmpty := by
  obtain hk | hk := Resolver.isValueSpec_iff.1 h <;> rw [hasValue, hk]

namespace Node

def targets (n : Node) : List Node :=
  match n.kind with
  | .shortVarDeclaration => Resolver.valuesIn n .left
  | .assignmentStatement =>
    if (n.child? .operator).map text = some "=" then (Resolver.valuesIn n .left).map bare else []
  | .rangeClause | .receiveStatement => (Resolver.valuesIn n .left).map bare
  | _ => []

def valueSpecs (n : Node) : List Node :=
  if n.kind = .varDeclaration || n.kind = .constDeclaration then
    n.children.filter Resolver.isValueSpec
  else []

/-- The names that a node gives values: the targets of a statement or clause that are names, and the
names of the specs of a declaration. -/
def assignments (n : Node) : List Assignment :=
  (n.targets.filter (·.kind == .identifier)).map (⟨n, ·⟩) ++
    n.valueSpecs.flatMap fun spec =>
      ((spec.inField .name).filter (·.kind == .identifier)).map (⟨spec, ·⟩)

/-- A node gives values to its targets that are names, or to the names of its specs. -/
theorem mem_assignments {a : Assignment} : a ∈ n.assignments ↔ a.name.kind = .identifier ∧
    (a.site = n ∧ a.name ∈ n.targets ∨ a.site ∈ n.valueSpecs ∧ a.name ∈ a.site.inField .name) := by
  obtain ⟨site, name⟩ := a
  simp only [assignments, List.mem_append, List.mem_map, List.mem_filter, beq_iff_eq,
    Assignment.mk.injEq, List.mem_flatMap]
  constructor
  · rintro (⟨x, ⟨hx, hkind⟩, rfl, rfl⟩ | ⟨spec, hspec, x, ⟨hx, hkind⟩, rfl, rfl⟩)
    · exact ⟨hkind, .inl ⟨rfl, hx⟩⟩
    · exact ⟨hkind, .inr ⟨hspec, hx⟩⟩
  · rintro ⟨hkind, ⟨rfl, hx⟩ | ⟨hspec, hx⟩⟩
    · exact .inl ⟨name, ⟨hx, hkind⟩, rfl, rfl⟩
    · exact .inr ⟨site, hspec, name, ⟨hx, hkind⟩, rfl, rfl⟩

theorem mem_valueSpecs (h : c ∈ n.valueSpecs) :
    (n.kind = .varDeclaration ∨ n.kind = .constDeclaration) ∧
    c ∈ n.children ∧ Resolver.isValueSpec c = true := by
  unfold valueSpecs at h
  split at h
  next hkind =>
    obtain ⟨hc, hspec⟩ := List.mem_filter.1 h
    exact ⟨by simpa using hkind, hc, hspec⟩
  next => cases h

/-- What is no declaration gives values to its targets. -/
theorem target_of_assignment {a : Assignment} (ha : a ∈ n.assignments)
    (hvar : n.kind ≠ .varDeclaration) (hconst : n.kind ≠ .constDeclaration) :
    a.site = n ∧ a.name.kind = .identifier ∧ a.name ∈ n.targets := by
  obtain ⟨hident, ⟨hsite, htarget⟩ | ⟨hspec, -⟩⟩ := mem_assignments.1 ha
  · exact ⟨hsite, hident, htarget⟩
  · exact ((mem_valueSpecs hspec).1.elim hvar hconst).elim

/-- A declaration gives values to the names of its specs. -/
theorem spec_of_assignment {a : Assignment} (ha : a ∈ n.assignments)
    (hkind : n.kind = .varDeclaration ∨ n.kind = .constDeclaration) :
    a.site ∈ n.valueSpecs ∧ a.name ∈ a.site.inField .name := by
  obtain ⟨-, ⟨-, htarget⟩ | hspec⟩ := mem_assignments.1 ha
  · obtain hk | hk := hkind <;> simp [targets, hk] at htarget
  · exact hspec

theorem valueless_of_clause (hkind : n.kind = .rangeClause ∨ n.kind = .receiveStatement) :
    ∀ a ∈ n.assignments, a.hasValue = false := by
  intro a ha
  have hsite : a.site = n := by
    obtain hk | hk := hkind <;> exact (target_of_assignment ha (by simp [hk]) (by simp [hk])).1
  obtain hk | hk := hkind <;> rw [Assignment.hasValue, hsite, hk]

theorem assignments_eq_nil (h : n.kind.assigns = false) : n.assignments = [] := by
  have htargets : n.targets = [] := by
    unfold targets
    split <;> first | rfl | simp_all [Kind.assigns]
  have hspecs : n.valueSpecs = [] := by
    unfold valueSpecs
    split
    next hkind =>
      rw [Bool.or_eq_true, decide_eq_true_eq, decide_eq_true_eq] at hkind
      obtain hk | hk := hkind <;> rw [hk] at h <;> cases h
    next => rfl
  rw [assignments, htargets, hspecs]
  rfl

theorem targets_cases (h : x ∈ n.targets) : n.kind.isWrapper = false ∧
    ∃ left ∈ n.children, ∃ e ∈ left.expressions, x = e ∨ x = e.bare := by
  have htarget : ∀ e ∈ Resolver.valuesIn n .left, ∃ left ∈ n.children, e ∈ left.expressions := by
    intro e he
    obtain ⟨left, hleft, he⟩ := Resolver.mem_valuesIn he
    exact ⟨left, (mem_children_of_child? hleft).1, he⟩
  have hbare : x ∈ (Resolver.valuesIn n .left).map bare →
      ∃ left ∈ n.children, ∃ e ∈ left.expressions, x = e ∨ x = e.bare := by
    intro hx
    obtain ⟨e, he, rfl⟩ := List.mem_map.1 hx
    obtain ⟨left, hleft, he⟩ := htarget e he
    exact ⟨left, hleft, e, he, .inr rfl⟩
  unfold targets at h
  split at h
  case h_1 hk =>
    obtain ⟨left, hleft, hx⟩ := htarget x h
    exact ⟨by rw [hk]; rfl, left, hleft, x, hx, .inl rfl⟩
  case h_2 hk =>
    split at h
    · exact ⟨by rw [hk]; rfl, hbare h⟩
    · cases h
  case h_3 hk | h_4 hk => exact ⟨by rw [hk]; rfl, hbare h⟩
  case h_5 => cases h

/-- The node that a target belongs to: the first above it that is no wrapper. -/
def holder (root x : Node) : Option Node :=
  (root.ancestors x).find? fun a => !a.kind.isWrapper

section Holder

variable (hroot : root.Distinct)
include hroot

theorem holder_child (hp : p ∈ root.preorder) (hc : c ∈ p.children) :
    holder root c = if p.kind.isWrapper then holder root p else some p := by
  rw [holder, hroot.ancestors_child hp hc, List.find?_cons]
  cases p.kind.isWrapper <;> rfl

theorem holder_bare (he : e ∈ root.preorder) : holder root e.bare = holder root e := by
  induction e using childrenInduction with
  | step e ih =>
    obtain hself | ⟨hkind, c, hc, hbare⟩ := bare_cases e
    · rw [hself]
    · rw [hbare, ih c hc (preorder_trans he (child_mem_preorder hc)), holder_child hroot he hc,
        hkind]
      rfl

/-- An expression on the left side belongs to the statement, whatever stands between. -/
theorem holder_expression (hn : n ∈ root.preorder) (hkind : n.kind.isWrapper = false)
    (hleft : left ∈ n.children) (he : e ∈ left.expressions) : holder root e = some n := by
  have hholder : holder root left = some n := by
    rw [holder_child hroot hn hleft, hkind]
    rfl
  unfold expressions at he
  split at he
  next hlist =>
    rw [holder_child hroot (preorder_trans hn (child_mem_preorder hleft))
      (List.mem_of_mem_filter he), hlist]
    exact hholder
  next =>
    obtain rfl := List.mem_singleton.1 he
    exact hholder

/-- A name is given a value by one node only. -/
theorem holder_name {a : Assignment} (hn : n ∈ root.preorder) (ha : a ∈ n.assignments) :
    holder root a.name = some n := by
  obtain ⟨-, ⟨-, htarget⟩ | ⟨hspec, hname⟩⟩ := mem_assignments.1 ha
  · obtain ⟨hkind, left, hleft, e, he, hx⟩ := targets_cases htarget
    have hholder := holder_expression hroot hn hkind hleft he
    obtain hx | hx := hx
    · rw [hx, hholder]
    · have hinner := inner_of_preorder (inner_of_child hleft) (expressions_subset he)
      rw [hx, holder_bare hroot (preorder_trans hn (preorder_of_inner hinner)), hholder]
  · obtain ⟨hkind, hchild, hspec⟩ := mem_valueSpecs hspec
    have hwrapper : a.site.kind.isWrapper = true := by
      obtain hk | hk := Resolver.isValueSpec_iff.1 hspec <;> rw [hk] <;> rfl
    have hplain : n.kind.isWrapper = false := by
      obtain hk | hk := hkind <;> rw [hk] <;> rfl
    rw [holder_child hroot (preorder_trans hn (child_mem_preorder hchild))
      (List.mem_of_mem_filter hname), hwrapper, if_pos rfl, holder_child hroot hn hchild, hplain]
    rfl

end Holder

theorem inner_of_assignment {a : Assignment} (ha : a ∈ n.assignments) : a.name ∈ n.inner := by
  obtain ⟨-, ⟨-, htarget⟩ | ⟨hspec, hname⟩⟩ := mem_assignments.1 ha
  · obtain ⟨-, left, hleft, e, he, hx⟩ := targets_cases htarget
    refine inner_of_preorder (inner_of_child hleft) (preorder_trans (expressions_subset he) ?_)
    obtain hx | hx := hx <;> rw [hx]
    · exact self_mem_preorder e
    · exact bare_mem_preorder e
  · exact inner_trans (inner_of_child (mem_valueSpecs hspec).2.1) (inner_of_mem_filter hname)

end Node

end Syntax

end Handoff
